import BindingEngine.Proofs.Engine.Handoff
import BindingEngine.Proofs.Session.Arrangement
import BindingEngine.Proofs.Session.Recovery

namespace BindingEngine

def Handoff.over (old : Option Value) : Handoff → Except Conflict (Option Value)
  | none => .ok old
  | some (p, v) => ((old.getD .null).set p v).map some

namespace Engine

variable {e : Engine} {root m : NodeId} {id : String} {handoff : Handoff} {x : Option Value}

theorem context?_handed (hm : m = root → id = handoffId → handoff = none) :
    (e.handed root handoff).2.tree.context? m id = e.tree.context? m id := by
  cases handoff
  case none => rfl
  case some h => exact context?_handOver fun hr hid => by cases hm hr hid

theorem contains_handed : (e.handed root handoff).2.tree.contains m = e.tree.contains m := by
  cases handoff
  case none => rfl
  case some => exact contains_handOver

theorem global_handed : (e.handed root handoff).2.global = e.global := by
  cases handoff
  case none => rfl
  case some => exact global_handOver

theorem handed_eq (h : e.tree.contains root) (handoff : Handoff) :
    (e.handed root handoff).1.map (fun _ => (e.handed root handoff).2.tree.context? root handoffId) =
      (handoff.over (e.tree.context? root handoffId)).mapError .ofConflict := by
  cases handoff
  case none => rfl
  case some v => exact handOver_eq h

theorem handed_ok_iff (h : e.tree.contains root) : (e.handed root handoff).1 = .ok () ∧
    (e.handed root handoff).2.tree.context? root handoffId = x ↔
      handoff.over (e.tree.context? root handoffId) = .ok x := by
  have he := handed_eq h handoff
  generalize (e.handed root handoff).1 = r at he ⊢
  generalize handoff.over (e.tree.context? root handoffId) = o at he ⊢
  cases r <;> cases o <;> simp_all [Except.map, Except.mapError]

theorem handed_of_not_contains (h : ¬e.tree.contains root) (hh : handoff ≠ none) :
    (e.handed root handoff).1 = .error (.missingNode root) := by
  cases handoff
  case none => contradiction
  case some => exact handOver_of_not_contains h

end Engine

namespace Session

variable {σ : Type} {p : Platform σ} {s s' : Session (σ × Transcript)} {d : Destination}
variable {screen : Screen} {handoff : Handoff} {move : Move} {r : Except Error Unit}
variable {resolve : Resolver}

theorem move?_present (s : Session (σ × Transcript)) (how : Presentation) (route : Route)
    (context : Option NavigationContext) : (s.move? resolve (.present how route context)).1 =
      (route.destination? resolve s.engine.baseUrl).map (.present how) := by
  have hd : route.destination? resolve s.engine.baseUrl = (s.destination? route resolve).1 := rfl
  simp only [hd, move?]
  split
  case h_1 he => rw [he]; rfl
  case h_2 he => rw [he]; rfl

section Presentation

theorem built_of_present (he : s.present d handoff = (.ok screen, s')) : ∃ e s₁,
    s.engine.createRoot.2.handed s.engine.createRoot.1 handoff = (.ok (), e) ∧
    { s with engine := e }.build s.engine.createRoot.1 d = (.ok (), s₁) ∧
    s' = s₁.report [.presented s.engine.createRoot.1 d.url?] ∧
    screen = ⟨d.url?, d.identifier?, s.engine.createRoot.1⟩ := by
  cases presented he
  case built e e' host hh hb =>
    refine ⟨e, { s with engine := e', host }, hh, ?_, rfl, rfl⟩
    simp only [build, hb]
    rfl

variable (hs : s.engine.Sound)

include hs

theorem over_of_handed_createRoot {e : Engine}
    (hh : s.engine.createRoot.2.handed s.engine.createRoot.1 handoff = (.ok (), e)) :
    handoff.over none = .ok (e.resolve handoffId s.engine.createRoot.1) := by
  have hi : Tree.Inserted s.engine.tree {} s.engine.createRoot.1 s.engine.createRoot.2.tree :=
    hs.forest.freeList.inserted {}
  have hn : s.engine.createRoot.2.tree.context? s.engine.createRoot.1 handoffId = none := by
    rw [Tree.context?_eq, hi.node?, if_pos rfl]
    rfl
  have hc : s.engine.createRoot.2.tree.contains s.engine.createRoot.1 :=
    ((Tree.isRoot_createRoot hs.forest).mpr (.inl rfl)).1
  have hx := (Engine.handed_ok_iff hc).mp ⟨congrArg Prod.fst hh, rfl⟩
  rw [hh, hn] at hx
  rw [hx, Engine.resolve_handoff (isRoot_handed_createRoot hs hh)]

variable (hb : s.platform.Builds fun root e => Engine.Operation.Below e root)

include hb

theorem keeps_present (he : s.present d handoff = (.ok screen, s')) :
    Engine.Keeps s.engine s'.engine := by
  have hl := (leads_present (hb.mono fun _ => trivial) hs he).later hs
  cases presented he
  case built e e' host hh hc =>
    have ht := through_build hb hs hh hc
    have ho := (sameOutside_handed_createRoot hs hh).trans
      (ht.sameOutside ((leads_handed_createRoot hh).sound hs) id)
    have hk : Engine.Keeps s.engine e' := .of_sameOutside hs hl ho
    exact hk.report _

theorem handoff_of_present (he : s.present d handoff = (.ok screen, s')) (how : Presentation)
    {m a : NodeId} (hm : s.engine.createRoot.1 ∈ (s'.display screen how).engine.tree.ancestors m)
    (ha : a ∈ (s'.display screen how).engine.tree.ancestors m)
    (hr : a = s.engine.createRoot.1 → handoff = none) :
    (s'.display screen how).engine.tree.context? a handoffId = none := by
  obtain ⟨removed, navigator, hd, -⟩ := display_eq s' screen how
  rw [hd, dismiss_eq] at hm ha ⊢
  cases presented he
  case built e e' host hh hc =>
    have hs₁ : s.engine.createRoot.2.Sound := hs.apply .createRoot
    have hh' : (s.engine.createRoot.2.handed s.engine.createRoot.1 handoff).2 = e :=
      congrArg Prod.snd hh
    have hl₁ : Engine.Leads s.engine.createRoot.2 e := hh' ▸ Engine.leads_handed
    have hs₂ := hl₁.sound hs₁
    have ht := through_build hb hs hh hc
    have hs₃ := (ht.leads.sound hs₂).report [.presented s.engine.createRoot.1 d.url?]
    have hd := Engine.Through.destroyAll (e'.report [.presented s.engine.createRoot.1 d.url?]) removed
    have hl : Engine.Leads s.engine.createRoot.2 _ :=
      ((hl₁.trans ht.leads).tail (.report e' _)).trans hd.leads
    refine Option.not_isSome_iff_eq_none.mp fun hx => ?_
    -- whoever else holds such a value was there before
    have hx' := hd.isSome_handoff hs₃ hx
    have hx' : (e.tree.context? a handoffId).isSome := ht.isSome_handoff hs₂ hx'
    rw [← hh', Engine.context?_handed fun hm _ => hr hm] at hx'
    have hx' := Engine.isSome_handoff_of_apply hs .createRoot hx'
    exact (hl.later hs₁).unrelated hs.forest (Tree.contains_of_context? hx') ha hm

theorem handed_over_present {how : Presentation}
    (he : s.perform handoff (.present how d) = (.ok (), s')) :
    ∃ e s₁, { s with engine := e }.build s.engine.createRoot.1 d = (.ok (), s₁) ∧
      s' = (s₁.report [.presented s.engine.createRoot.1 d.url?]).display
        ⟨d.url?, d.identifier?, s.engine.createRoot.1⟩ how ∧
      handoff.over none = .ok (e.resolve handoffId s.engine.createRoot.1) ∧
      ∀ m, s.engine.createRoot.1 ∈ s'.engine.tree.ancestors m →
        (handoff = none → s'.engine.resolve handoffId m = none) ∧
        (m ≠ s.engine.createRoot.1 → s'.engine.tree.context? m handoffId = none) := by
  simp only [perform] at he
  split at he
  case h_1 => cases he
  case h_2 screen s₂ hpr =>
    cases he
    obtain ⟨e, s₁, hh, hbuild, rfl, rfl⟩ := built_of_present hpr
    have hx {m a : NodeId} := handoff_of_present (m := m) (a := a) hs hb hpr how
    refine ⟨e, s₁, hbuild, rfl, over_of_handed_createRoot hs hh, fun m hm =>
      ⟨fun hn => ?_, fun hm' => ?_⟩⟩
    case refine_1 => exact Engine.resolve_handoff_eq_none fun a ha => hx hm ha fun _ => hn
    case refine_2 =>
      have hc := Tree.ancestors_ne_nil_iff.mp (List.ne_nil_of_mem hm)
      exact hx hm (Tree.mem_ancestors_self hc) fun he => absurd he hm'

end Presentation

section Return

variable (ha : Arranged s) (hs : s.engine.Sound)

-- Screens that are taken away leave the root below them with what it holds.
structure Uncovered (s : Session (σ × Transcript)) (screen : Screen) (e : Engine) : Prop where
  mem : screen.root ∈ s.navigator.roots
  keeps : Engine.Keeps s.engine e
  isRoot : s.engine.tree.IsRoot screen.root → e.tree.IsRoot screen.root

include ha hs

theorem back_cases (hp : s.platform = p.transcribed) {how : Return String}
    (he : s.back how handoff = (r, s')) :
    (∃ reports navigator, r = .ok () ∧ s' = { s.report reports with navigator }) ∨
    ∃ e screen, Uncovered s screen e ∧ s'.navigator.current? = some screen ∧
      s'.transcript.dismissed ≠ s.transcript.dismissed ∧
      e.handed screen.root handoff = (r, s'.engine) := by
  obtain ⟨reports, removed, navigator, hpop, hb⟩ := s.back_eq how handoff
  rw [hb] at he
  by_cases hr : removed = []
  case pos =>
    subst hr
    cases he
    exact .inl ⟨reports, navigator, rfl, rfl⟩
  case neg =>
    obtain ⟨screen, hc⟩ := hpop.current? ha.filled hr
    simp only [reveal, List.isEmpty_iff, hr, if_false, navigator_dismiss, hc, handOver_eq] at he
    cases he
    have hm := Navigator.mem_roots_of_current? hc
    have hs' := hs.report reports
    have hd : (removed ++ navigator.roots).Nodup := hpop.roots ▸ ha.nodup
    have hn : screen.root ∉ removed := fun hr => (List.nodup_append.mp hd).2.2 _ hr _ hm rfl
    refine .inr ⟨_, screen, ⟨?mem, ?keeps, ?isRoot⟩, ?current, ?dismissed, rfl⟩
    case mem => exact hpop.roots ▸ List.mem_append_right removed hm
    case keeps =>
      rw [dismiss_eq]
      exact ((Engine.Keeps.refl hs).report reports).trans (.destroyAll hs' removed)
    case isRoot =>
      rw [dismiss_eq]
      exact (Engine.isRoot_destroyAll hs' hn).mpr
    case current => exact hc
    case dismissed =>
      have hd := dismissed_dismiss (s := { s.report reports with navigator }) hp removed
      exact fun he => hr (List.append_right_eq_self.mp (hd.symm.trans he))

end Return

namespace Uncovered

variable {e : Engine} (h : Uncovered s screen e) (ha : Arranged s)

include h ha

theorem resolve_eq (hc : s.engine.tree.contains screen.root) :
    e.resolve handoffId screen.root = s.engine.resolve handoffId screen.root := by
  have hr := ha.isRoot h.mem hc
  have hr' := h.isRoot hr
  rw [Engine.resolve_handoff hr', Engine.resolve_handoff hr, h.keeps.context? _ hc hr'.1]

theorem handed_ok {x : Option Value} (hc : s.engine.tree.contains screen.root)
    (he : e.handed screen.root handoff = (r, s'.engine))
    (hx : handoff.over (s.engine.resolve handoffId screen.root) = .ok x) :
    r = .ok () ∧ s'.engine.resolve handoffId screen.root = x := by
  have hr := h.isRoot (ha.isRoot h.mem hc)
  rw [← h.resolve_eq ha hc, Engine.resolve_handoff hr] at hx
  have hh := (Engine.handed_ok_iff hr.1).mpr hx
  have hr' : (e.handed screen.root handoff).2.tree.IsRoot screen.root := Engine.isRoot_handed.mpr hr
  rw [he] at hh hr'
  exact ⟨hh.1, (Engine.resolve_handoff hr').trans hh.2⟩

theorem handed_missing (hc : ¬s.engine.tree.contains screen.root) (hh : handoff ≠ none)
    (he : e.handed screen.root handoff = (r, s'.engine)) :
    r = .error (.missingNode screen.root) := by
  have hn := h.keeps.later.spent (ha.spent h.mem hc)
  have hm := Engine.handed_of_not_contains hn.not_contains hh
  rwa [he] at hm

end Uncovered

theorem handed_over_back (ha : Arranged s) (hs : s.engine.Sound) (hp : s.platform = p.transcribed)
    {how : Return String} (he : s.back how handoff = (r, s'))
    (hd : s'.transcript.dismissed ≠ s.transcript.dismissed) :
    ∃ screen, s'.navigator.current? = some screen ∧
      (s.engine.tree.contains screen.root → ∀ x,
        handoff.over (s.engine.resolve handoffId screen.root) = .ok x →
        r = .ok () ∧ s'.engine.resolve handoffId screen.root = x) ∧
      (¬s.engine.tree.contains screen.root → handoff ≠ none →
        r = .error (.missingNode screen.root)) := by
  rcases back_cases ha hs hp he with ⟨_, _, -, rfl⟩ | ⟨e, screen, hu, hc, -, hh⟩
  case inl => exact absurd rfl hd
  case inr =>
    exact ⟨screen, hc, fun hl x hx => hu.handed_ok ha hl hh hx,
      fun hl hn => hu.handed_missing ha hl hn hh⟩

section Frame

-- A node is the root of the screen that came to be on display when others were dismissed.
def Reveals (s s' : Session (σ × Transcript)) (root : NodeId) : Prop :=
  s'.transcript.dismissed ≠ s.transcript.dismissed ∧
    ∃ screen, s'.navigator.current? = some screen ∧ screen.root = root

-- Whoever stays keeps what it holds, unless `carries` holds and a value is handed over to a root that is
-- revealed.
def Spares (carries : Prop) (s s' : Session (σ × Transcript)) : Prop :=
  s'.engine.global = s.engine.global ∧ ∀ m id, s.engine.tree.contains m → s'.engine.tree.contains m →
    s'.engine.tree.context? m id = s.engine.tree.context? m id ∨
      id = handoffId ∧ carries ∧ Reveals s s' m

theorem Spares.imp {carries carries' : Prop} (h : Spares carries s s') (hc : carries → carries') :
    Spares carries' s s' :=
  ⟨h.1, fun m id hm hm' => (h.2 m id hm hm').imp_right fun hr => ⟨hr.1, hc hr.2.1, hr.2.2⟩⟩

theorem Spares.of_keeps {carries : Prop} (h : Engine.Keeps s.engine s'.engine) :
    Spares carries s s' :=
  ⟨h.global, fun _ id hm hm' => .inl (h.context? id hm hm')⟩

theorem spares_back (ha : Arranged s) (hs : s.engine.Sound) (hp : s.platform = p.transcribed)
    {how : Return String} (he : s.back how handoff = (r, s')) : Spares (handoff ≠ none) s s' := by
  rcases back_cases ha hs hp he with ⟨reports, navigator, -, rfl⟩ | ⟨e, screen, hu, hc, hd, hh⟩
  case inl => exact .of_keeps ((Engine.Keeps.refl hs).report reports)
  case inr =>
    have hh' : (e.handed screen.root handoff).2 = s'.engine := congrArg Prod.snd hh
    refine ⟨by rw [← hh', Engine.global_handed, hu.keeps.global], fun m id hm hm' => ?_⟩
    rw [← hh', Engine.contains_handed] at hm'
    rw [← hh', ← hu.keeps.context? id hm hm']
    by_cases hx : m = screen.root → id = handoffId → handoff = none
    case pos => exact .inl (Engine.context?_handed hx)
    case neg =>
      simp only [Classical.not_imp] at hx
      obtain ⟨rfl, hid, hn⟩ := hx
      exact .inr ⟨hid, hn, hd, screen, hc, rfl⟩

variable (hs : s.engine.Sound) (hp : s.platform = p.transcribed)
variable (hb : s.platform.Builds fun root e => Engine.Operation.Below e root)

include hs hp hb

theorem keeps_perform (he : s.perform handoff move = (r, s')) (hm : ∀ how, move ≠ .back how) :
    Engine.Keeps s.engine s'.engine := by
  have hl := (leads_perform (hb.mono fun _ => trivial) hs he).later hs
  cases performed he
  case openedUrl url _ _ _ => exact (Engine.Keeps.refl hs).report [.openingUrl url]
  case left screen _ _ _ _ => exact (Engine.Keeps.refl hs).report [.openingNative screen.screen]
  case cleared screen _ _ _ _ hd _ =>
    subst hd
    rw [dismiss_eq]
    exact ((Engine.Keeps.refl hs).report [.openingNative screen.screen]).trans
      (.destroyAll (hs.report _) _)
  case refused hd =>
    have hu := unaffected_present hp hs hb hd
    exact ⟨hl, hu.global, fun id _ _ => hu.context? _ id⟩
  case displayed s₁ _ _ hd _ =>
    have hs₁ : s₁.engine.Sound := (leads_present (hb.mono fun _ => trivial) hs hd).sound hs
    rw [dismiss_eq]
    exact (keeps_present hs hb hd).trans (.destroyAll hs₁ _)
  case returned how _ => exact absurd rfl (hm how)

theorem spares_perform (ha : Arranged s) (he : s.perform handoff move = (r, s')) :
    Spares ((∃ how, move = .back how) ∧ handoff ≠ none) s s' := by
  by_cases hm : ∃ how, move = .back how
  case neg => exact .of_keeps (keeps_perform hs hp hb he fun how hn => hm ⟨how, hn⟩)
  case pos =>
    obtain ⟨how, rfl⟩ := hm
    exact (spares_back ha hs hp he).imp fun hn => ⟨⟨how, rfl⟩, hn⟩

end Frame

variable {h : σ} {global : Value} {baseUrl : Option String} {n : Navigation} {origin : NodeId}
variable {implicit : List Context}

-- A navigation hands over what its origin sees before it. The root of a screen that is presented has the
-- value when the screen is built. The root that is revealed has it when the screens above are gone, if
-- it is still there. Nobody else is handed anything.
theorem handed_over (hb : p.Builds fun root e => Engine.Operation.Below e root)
    (hg : Proceeds (fun _ _ => True) (start p h global baseUrl) s)
    (he : s.navigate n origin implicit = (r, s')) :
    (∀ how route context d, n = .present how route context →
      route.destination? (s.resolver origin implicit) s.engine.baseUrl = some d → r = .ok () →
      ∃ e s₁, { s with engine := e }.build s.engine.createRoot.1 d = (.ok (), s₁) ∧
        s' = (s₁.report [.presented s.engine.createRoot.1 d.url?]).display
          ⟨d.url?, d.identifier?, s.engine.createRoot.1⟩ how ∧
        (n.handoff (s.resolver origin implicit)).over none =
          .ok (e.resolve handoffId s.engine.createRoot.1) ∧
        ∀ m, s.engine.createRoot.1 ∈ s'.engine.tree.ancestors m →
          (context = none → s'.engine.resolve handoffId m = none) ∧
          (m ≠ s.engine.createRoot.1 → s'.engine.tree.context? m handoffId = none)) ∧
    (∀ how context, n = .back how context → s'.transcript.dismissed ≠ s.transcript.dismissed →
      ∃ screen, s'.navigator.current? = some screen ∧
        (s.engine.tree.contains screen.root → ∀ x,
          (n.handoff (s.resolver origin implicit)).over
            (s.engine.resolve handoffId screen.root) = .ok x →
          r = .ok () ∧ s'.engine.resolve handoffId screen.root = x) ∧
        (¬s.engine.tree.contains screen.root → context ≠ none →
          r = .error (.missingNode screen.root))) ∧
    Spares (∃ how c, n = .back how (some c)) s s' ∧
    ∀ old v, Handoff.over old (some ([], v)) = .ok (some v) := by
  obtain ⟨hp, hs⟩ := hg.reached (hb.mono fun _ => trivial)
  have hb' := hp ▸ hb.transcribed
  obtain ⟨reports, -, hn⟩ := s.navigate_eq n origin implicit
  have hs' : (s.report reports).engine.Sound := hs.report reports
  have ha : Arranged (s.report reports) :=
    (Proceeds.arranged (hb.mono fun _ => trivial) hg).of_navigator_eq (.refl hs.forest) rfl
  rw [hn] at he
  refine ⟨fun how route context d hn hd hr => ?present, fun how context hn hd => ?back, ?spares,
    fun _ _ => rfl⟩
  case present =>
    subst hn hr
    rw [move?_present, hd] at he
    have hr (hc : context = none) :
        (Navigation.present how route context).handoff (s.resolver origin implicit) = none :=
      Option.map_eq_none_iff.mpr hc
    obtain ⟨e, s₁, hbuild, hs'', ho, hm⟩ := handed_over_present hs' hb' he
    exact ⟨e, s₁, hbuild, hs'', ho, fun m ha => ⟨fun hc => (hm m ha).1 (hr hc), (hm m ha).2⟩⟩
  case back =>
    subst hn
    split at he
    case h_1 =>
      cases he
      exact absurd rfl hd
    case h_2 move hm =>
      obtain ⟨how', rfl⟩ := (evaluated_of_move? hm).back_iff.mp ⟨how, context, rfl⟩
      obtain ⟨screen, hc, hl, hg⟩ := handed_over_back ha hs' hp he hd
      exact ⟨screen, hc, hl, fun hn hx => hg hn fun hh => hx (Option.map_eq_none_iff.mp hh)⟩
  case spares =>
    split at he
    case h_1 =>
      cases he
      exact .of_keeps ((Engine.Keeps.refl hs).report reports)
    case h_2 move hm =>
      have hsp : Spares _ s s' := spares_perform (s := s.report reports) hs' hp hb' ha he
      refine hsp.imp fun hc => ?_
      obtain ⟨how, context, rfl⟩ := (evaluated_of_move? hm).back_iff.mpr hc.1
      cases context
      case none => exact absurd rfl hc.2
      case some c => exact ⟨how, c, rfl⟩

theorem fragile_builds_below : fragile.Builds fun root e => Engine.Operation.Below e root :=
  fragile_builds fun hr _ => Tree.mem_ancestors_self hr

def farewell : NavigationContext :=
  ⟨some [.key "from"], .binding ⟨"@\x7btitle\x7d", [.binding (.read "title" [])]⟩⟩

def parted : Session (Unit × Transcript) :=
  (deepened.navigate (.back .view farewell) ⟨1, 0⟩ []).2

theorem parted_handed_over : ¬parted.engine.tree.contains ⟨1, 0⟩ ∧
    parted.engine.resolve handoffId ⟨0, 0⟩ = some (.map [("from", .string "details")]) := by
  have hg : Course (fun _ _ => True) (start fragile () .null none) deepened :=
    course_launched.tail ⟨.execute _ _ _, trivial, rfl⟩
  have he : deepened.navigate (.back .view farewell) ⟨1, 0⟩ [] = (.ok (), parted) := rfl
  obtain ⟨_, hb, _⟩ := handed_over fragile_builds_below hg.proceeds he
  obtain ⟨screen, hc, hl, _⟩ := hb .view farewell rfl (by decide)
  obtain rfl : ⟨none, some "home", ⟨0, 0⟩⟩ = screen := Option.some.inj hc
  exact ⟨by decide, (hl (by decide) _ rfl).2⟩

def abandoned : Session (Unit × Transcript) :=
  deepened.apply (.adjust (.destroy ⟨0, 0⟩))

-- The screen that is revealed has no root any more, and nothing can be handed over to it.
theorem exists_unreachable_root : ∃ s' : Session (Unit × Transcript), ∃ screen,
    fragile.Builds (fun root e => Engine.Operation.Below e root) ∧
    Course (fun _ _ => True) (start fragile () .null none) abandoned ∧
    abandoned.navigate (.back .view (some ⟨none, .value (.int 1)⟩)) ⟨1, 0⟩ [] =
      (.error (.missingNode ⟨0, 0⟩), s') ∧
    s'.transcript.dismissed ≠ abandoned.transcript.dismissed ∧
    s'.navigator.current? = some screen ∧ screen.root = ⟨0, 0⟩ ∧
    Handoff.over (abandoned.engine.resolve handoffId screen.root) (some ([], .int 1)) =
      .ok (some (.int 1)) ∧
    s'.engine.resolve handoffId screen.root = none := by
  refine ⟨(abandoned.navigate (.back .view (some ⟨none, .value (.int 1)⟩)) ⟨1, 0⟩ []).2,
    ⟨none, some "home", ⟨0, 0⟩⟩, fragile_builds_below, ?_, rfl, ?_, rfl, rfl, rfl, rfl⟩
  case refine_1 =>
    exact (course_launched.tail ⟨.execute _ _ _, trivial, rfl⟩).tail
      ⟨.adjust (.destroy ⟨0, 0⟩), trivial, rfl⟩
  case refine_2 => decide

end Session

end BindingEngine
