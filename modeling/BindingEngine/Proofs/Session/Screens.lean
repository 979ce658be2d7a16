import Mathlib.Data.List.Nodup
import BindingEngine.Proofs.Session.Course

open scoped List

namespace BindingEngine.Session

variable {σ : Type} {p : Platform σ} {s s' : Session (σ × Transcript)} {roots rest : List NodeId}
variable {d : Destination} {handoff : Handoff} {error : Error} {n r m : NodeId}

-- The books of a session. The roots in the tree are `roots`. Every screen that was built is one of them
-- or was dismissed, one or the other and once, and its root is gone for good if it was dismissed.
structure Accounts (s : Session (σ × Transcript)) (roots : List NodeId) : Prop where
  isRoot {n : NodeId} : s.engine.tree.IsRoot n ↔ n ∈ roots
  built : s.transcript.built ~ s.transcript.dismissed ++ roots
  nodup : (s.transcript.dismissed ++ roots).Nodup
  spent {n : NodeId} : n ∈ s.transcript.dismissed → s.engine.tree.Spent n

namespace Accounts

theorem start (p : Platform σ) (h : σ) (global : Value) (baseUrl : Option String) :
    Accounts (start p h global baseUrl) [] where
  isRoot := by simp [Tree.IsRoot, Session.start, Engine.start, Tree.contains, Tree.node?]
  built := .refl _
  nodup := .nil
  spent h := by simp [Session.start, transcript, Transcript.dismissed] at h

theorem perm {roots' : List NodeId} (h : Accounts s roots) (hp : roots ~ roots') :
    Accounts s roots' where
  isRoot := h.isRoot.trans hp.mem_iff
  built := h.built.trans (hp.append_left _)
  nodup := (hp.append_left _).nodup_iff.mp h.nodup
  spent := h.spent

theorem of_quiet (h : Accounts s roots) (hs : s.engine.Sound) {t : Transcript}
    (hl : Engine.Leads s.engine s'.engine)
    (hr : ∀ {n}, s'.engine.tree.IsRoot n ↔ s.engine.tree.IsRoot n)
    (ht : s'.transcript = s.transcript ++ t) (hb : t.built = []) (hd : t.dismissed = []) :
    Accounts s' roots where
  isRoot := hr.trans h.isRoot
  built := by
    rw [ht, Transcript.built_append, Transcript.dismissed_append, hb, hd, List.append_nil,
      List.append_nil]
    exact h.built
  nodup := by
    rw [ht, Transcript.dismissed_append, hd, List.append_nil]
    exact h.nodup
  spent hn := by
    rw [ht, Transcript.dismissed_append, hd, List.append_nil] at hn
    exact (hl.later hs).spent (h.spent hn)

theorem destroy {root : NodeId} (h : Accounts s (root :: roots)) (hs : s.engine.Sound)
    (he : s'.engine = (s.engine.destroy root).2)
    (ht : s'.transcript = s.transcript ++ [.dismissed root]) : Accounts s' roots := by
  have hd : s'.transcript.dismissed ++ roots = s.transcript.dismissed ++ root :: roots := by
    rw [ht, Transcript.dismissed_append, List.append_assoc]
    rfl
  have hr : s.engine.tree.IsRoot root := h.isRoot.mpr List.mem_cons_self
  have hm : root ∉ roots := (List.nodup_cons.mp (List.nodup_append.mp h.nodup).2.1).1
  constructor
  case isRoot =>
    intro n
    rw [he, Engine.tree_destroy, Tree.isRoot_remove hs.forest, h.isRoot, List.mem_cons]
    exact ⟨fun hn => hn.1.resolve_left hn.2, fun hn => ⟨.inr hn, fun he => hm (he ▸ hn)⟩⟩
  case built =>
    rw [hd, ht, Transcript.built_append]
    exact (List.append_nil _).symm ▸ h.built
  case nodup => exact hd ▸ h.nodup
  case spent =>
    intro n hn
    rw [he, Engine.tree_destroy]
    rw [ht, Transcript.dismissed_append, List.mem_append] at hn
    cases hn
    case inl hn => exact (h.spent hn).apply (.remove root)
    case inr hn =>
      rw [List.mem_singleton.mp hn]
      exact hs.forest.spent_remove (hs.forest.mem_subtree_iff.mpr (Tree.mem_ancestors_self hr.1))

theorem dismiss {removed : List NodeId} (h : Accounts s (removed ++ roots))
    (hp : s.platform = p.transcribed) (hs : s.engine.Sound) :
    Accounts (s.dismiss removed) roots := by
  induction removed generalizing s
  case nil => exact h
  case cons root removed hi =>
    refine hi (h.destroy hs rfl ?_) hp (hs.destroy root)
    simp only [transcript, hp]
    rfl

end Accounts

section Presentation

variable (hb : s.platform.Builds fun _ => Engine.Operation.SparesRoots) (hs : s.engine.Sound)

include hb hs

theorem isRoot_of_build {e e' : Engine} {r : Except String Unit} {host : σ × Transcript}
    (hh : s.engine.createRoot.2.handed s.engine.createRoot.1 handoff = (.ok (), e))
    (he : s.platform.buildScreen s.host e s.engine.createRoot.1 d = (r, e', host)) :
    e'.tree.IsRoot n ↔ n = s.engine.createRoot.1 ∨ s.engine.tree.IsRoot n := by
  have ht := through_build hb hs hh he
  have hr : (s.engine.createRoot.2.handed s.engine.createRoot.1 handoff).2.tree.IsRoot n ↔ _ :=
    Engine.isRoot_handed
  rw [hh] at hr
  exact (ht.isRoot_iff ((leads_handed_createRoot hh).sound hs) id).trans
    (hr.trans (Tree.isRoot_createRoot hs.forest))

omit hb in
theorem isRoot_destroy_createRoot {e : Engine} (he : e.Sound)
    (h : ∀ {n}, e.tree.IsRoot n ↔ n = s.engine.createRoot.1 ∨ s.engine.tree.IsRoot n) :
    (e.destroy s.engine.createRoot.1).2.tree.IsRoot n ↔ s.engine.tree.IsRoot n := by
  rw [Engine.tree_destroy, Tree.isRoot_remove he.forest, h]
  refine ⟨fun hn => hn.1.resolve_left hn.2, fun hn => ⟨.inr hn, fun hr => ?_⟩⟩
  exact Tree.not_contains_createRoot hs.forest (hr ▸ hn.1)

variable (hp : s.platform = p.transcribed)

include hp

theorem discarded (he : s.present d handoff = (.error error, s')) : ∃ (e : Engine) (t : Transcript),
    Engine.Leads s.engine e ∧
    (∀ {n}, e.tree.IsRoot n ↔ n = s.engine.createRoot.1 ∨ s.engine.tree.IsRoot n) ∧
    s'.engine = (e.destroy s.engine.createRoot.1).2 ∧
    s'.transcript = s.transcript ++ t ∧ t.built = [] ∧ t.dismissed = [] := by
  cases presented he
  case refused e hh =>
    refine ⟨e, [], leads_handed_createRoot hh, fun {n} => ?_, rfl, (List.append_nil _).symm, rfl, rfl⟩
    have hr : (s.engine.createRoot.2.handed s.engine.createRoot.1 handoff).2.tree.IsRoot n ↔ _ :=
      Engine.isRoot_handed
    rw [hh] at hr
    exact hr.trans (Tree.isRoot_createRoot hs.forest)
  case unbuilt text e e' host hh hc =>
    have ht := through_build hb hs hh hc
    exact ⟨e', [.built s.engine.createRoot.1 d (.error text)],
      (leads_handed_createRoot hh).trans ht.leads, isRoot_of_build hb hs hh hc, rfl,
      host_of_build hp hc, rfl, rfl⟩

theorem Accounts.of_present_error (h : Accounts s roots)
    (he : s.present d handoff = (.error error, s')) : Accounts s' roots := by
  obtain ⟨e, t, hl, hr, hd, ht, htb, htd⟩ := discarded hb hs hp he
  refine h.of_quiet hs (.tail hl (hd ▸ .operation e (.destroy _))) (fun {n} => ?_) ht htb htd
  rw [hd]
  exact isRoot_destroy_createRoot hs (hl.sound hs) hr

theorem spent_of_present_error (he : s.present d handoff = (.error error, s')) :
    s'.engine.tree.Spent s.engine.createRoot.1 := by
  obtain ⟨e, t, hl, hr, hd, _⟩ := discarded hb hs hp he
  have hc : e.tree.contains s.engine.createRoot.1 := (hr.mpr (.inl rfl)).1
  have f := (hl.sound hs).forest
  rw [hd, Engine.tree_destroy]
  exact f.spent_remove (f.mem_subtree_iff.mpr (Tree.mem_ancestors_self hc))

theorem Accounts.of_present {screen : Screen} (h : Accounts s roots)
    (he : s.present d handoff = (.ok screen, s')) : Accounts s' (screen.root :: roots) := by
  have hl := leads_present (hb.mono fun _ => trivial) hs he
  cases presented he
  case built e e' host hh hc =>
    have hr {n : NodeId} := isRoot_of_build (n := n) hb hs hh hc
    have ht : host.2 = s.transcript ++ _ := host_of_build hp hc
    have hb : host.2.built = s.transcript.built ++ [s.engine.createRoot.1] := by
      rw [ht, Transcript.built_append]
      rfl
    have hd : host.2.dismissed = s.transcript.dismissed := by
      rw [ht, Transcript.dismissed_append]
      exact List.append_nil _
    have hn : s.engine.createRoot.1 ∉ s.transcript.dismissed ++ roots := by
      rw [List.mem_append, ← h.isRoot]
      rintro (hn | hn)
      case inl => exact ((hl.later hs).spent (h.spent hn)).not_contains (hr.mpr (.inl rfl)).1
      case inr => exact Tree.not_contains_createRoot hs.forest hn.1
    have hm : s.transcript.dismissed ++ s.engine.createRoot.1 :: roots ~
        s.engine.createRoot.1 :: (s.transcript.dismissed ++ roots) := List.perm_middle
    refine ⟨fun {n} => ?isRoot, ?built, ?nodup, fun {n} hn => ?spent⟩
    case isRoot =>
      rw [List.mem_cons, ← h.isRoot]
      exact hr
    case built =>
      have hp : host.2.built ~ host.2.dismissed ++ s.engine.createRoot.1 :: roots := by
        rw [hb, hd]
        exact (List.perm_append_singleton _ _).trans ((h.built.cons _).trans hm.symm)
      exact hp
    case nodup =>
      have hu : (host.2.dismissed ++ s.engine.createRoot.1 :: roots).Nodup := by
        rw [hd, hm.nodup_iff]
        exact List.nodup_cons.mpr ⟨hn, h.nodup⟩
      exact hu
    case spent =>
      have hn : n ∈ host.2.dismissed := hn
      exact (hl.later hs).spent (h.spent (hd ▸ hn))

end Presentation

namespace Accounts

theorem report (h : Accounts s roots) (reports : List Report) : Accounts (s.report reports) roots :=
  ⟨h.isRoot, h.built, h.nodup, h.spent⟩

theorem withNavigator (h : Accounts s roots) (navigator : Navigator) :
    Accounts { s with navigator } roots :=
  ⟨h.isRoot, h.built, h.nodup, h.spent⟩

theorem withHost (h : Accounts s roots) (hs : s.engine.Sound) {host : σ × Transcript}
    {x : Exchange} (ht : host.2 = s.transcript ++ [x]) (hb : x.built? = none)
    (hd : x.dismissed? = none) : Accounts { s with host } roots := by
  refine h.of_quiet hs .refl Iff.rfl ht ?_ ?_
  case refine_1 => simp [Transcript.built, hb]
  case refine_2 => simp [Transcript.dismissed, hd]

theorem handOver (h : Accounts s roots) (hs : s.engine.Sound) (root : NodeId) (handoff : Handoff) :
    Accounts (s.handOver root handoff).2 roots := by
  rw [handOver_eq]
  exact h.of_quiet hs Engine.leads_handed Engine.isRoot_handed (List.append_nil _).symm rfl rfl

theorem back {how : Return String} {r : Except Error Unit} (h : Accounts s s.navigator.roots)
    (hp : s.platform = p.transcribed) (hs : s.engine.Sound) (he : s.back how handoff = (r, s')) :
    Accounts s' s'.navigator.roots := by
  have hd {removed : List NodeId} {navigator : Navigator} (reports : List Report)
      (hn : removed ++ navigator.roots = s.navigator.roots) :
      Accounts ({ s.report reports with navigator }.dismiss removed) navigator.roots :=
    (((hn ▸ h).report reports).withNavigator navigator).dismiss hp (hs.report reports)
  cases returned he
  case stayed navigator reports hn => exact ((hn ▸ h).report reports).withNavigator navigator
  case emptied reports _ hn _ =>
    rw [navigator_dismiss]
    exact hd reports hn
  case uncovered reports _ hn _ =>
    rw [navigator_handOver, navigator_dismiss]
    refine (hd reports hn).handOver (Engine.Leads.sound (leads_dismiss ?_) hs) _ _
    exact leads_report reports

theorem perform {move : Move} {r : Except Error Unit} (h : Accounts s s.navigator.roots)
    (hp : s.platform = p.transcribed)
    (hb : s.platform.Builds fun _ => Engine.Operation.SparesRoots) (hs : s.engine.Sound)
    (he : s.perform handoff move = (r, s')) : Accounts s' s'.navigator.roots := by
  cases performed he
  case openedUrl url _ _ ho =>
    exact (h.report [.openingUrl url]).withHost (hs.report _) (host_of_openUrl hp ho) rfl rfl
  case left screen _ _ _ ho =>
    exact (h.report [.openingNative screen.screen]).withHost (hs.report _)
      (host_of_openNative hp ho) rfl rfl
  case cleared screen s' _ _ _ hd ho =>
    have hp' : s'.platform = p.transcribed := hd ▸ platform_dismiss.trans hp
    have ho := host_of_openNative hp' ho
    subst hd
    have hr := (h.report [.openingNative screen.screen]).withNavigator {}
    have ha := (hr.perm (.of_eq (List.append_nil _).symm)).dismiss hp (hs.report _)
    have hl : Engine.Leads s.engine _ := leads_perform (hb.mono fun _ => trivial) hs he
    refine (ha.withHost (hl.sound hs) ho rfl rfl).perm (.of_eq ?_)
    rw [navigator_dismiss]
    rfl
  case refused hd => exact navigator_present hd ▸ h.of_present_error hb hs hp hd
  case displayed hd hn =>
    have hl := leads_present (hb.mono fun _ => trivial) hs hd
    have ha := (h.of_present hb hs hp hd).perm (navigator_present hd ▸ hn.symm)
    rw [navigator_dismiss]
    exact (ha.withNavigator _).dismiss ((platform_present hd).trans hp) (hl.sound hs)
  case returned hd => exact h.back hp hs hd

theorem progress (h : Accounts s s.navigator.roots) (hp : s.platform = p.transcribed)
    (hb : s.platform.Builds fun _ => Engine.Operation.SparesRoots) (hs : s.engine.Sound)
    (hg : Progress Engine.Operation.SparesRoots s s') : Accounts s' s'.navigator.roots := by
  have hl := hg.leads (hb.mono fun _ => trivial) hs
  have hr (op : Engine.Operation) (ho : op.SparesRoots s.engine) {n : NodeId} :=
    Engine.isRoot_apply (n := n) hs.forest ho
  cases hg
  case report reports => exact h.report reports
  case validate n => exact h.withHost hs (x := .validated n) (by rw [hp]; rfl) rfl rfl
  case setContext id q v n =>
    exact h.of_quiet hs hl (hr (.setContext id q v n) trivial) (List.append_nil _).symm rfl rfl
  case send origin implicit url method headers data request reports onSuccess onError onFinish _ _ =>
    obtain ⟨host, ⟨_, he⟩ | he⟩ := send_cases (s := s.report reports) hp request
      ⟨origin, onSuccess, onError, onFinish⟩
    all_goals
      rw [he] at hl ⊢
      exact h.of_quiet hs hl Iff.rfl rfl rfl rfl
  case perform => exact h.perform hp hb hs rfl
  case answer id => exact h.of_quiet hs hl Iff.rfl (t := [.answered id]) rfl rfl rfl
  case registerDeepLink route screen =>
    obtain ⟨_, he⟩ := registerDeepLink_eq s route screen
    rw [he]
    exact ⟨h.isRoot, h.built, h.nodup, h.spent⟩
  case adjust op ho => exact h.of_quiet hs hl (hr op ho) (List.append_nil _).symm rfl rfl

theorem proceeds (h : Accounts s s.navigator.roots) (hp : s.platform = p.transcribed)
    (hb : s.platform.Builds fun _ => Engine.Operation.SparesRoots) (hs : s.engine.Sound)
    (hg : Proceeds Engine.Operation.SparesRoots s s') : Accounts s' s'.navigator.roots := by
  induction hg
  case refl => exact h
  case tail hg hst hi =>
    have he := Proceeds.platform_eq hg
    have hl := Proceeds.leads hg (hb.mono fun _ => trivial) hs
    exact hi.progress (he.trans hp) (he ▸ hb) (hl.sound hs) hst

end Accounts

section Screens

variable (hb : p.Builds fun _ => Engine.Operation.SparesRoots)
variable {h : σ} {global : Value} {baseUrl : Option String}

include hb

theorem accounts_of_proceeds
    (hg : Proceeds Engine.Operation.SparesRoots (Session.start p h global baseUrl) s) :
    Accounts s s.navigator.roots :=
  (Accounts.start p h global baseUrl).proceeds rfl hb.transcribed (.start global baseUrl) hg

-- However a session has proceeded, the roots in the tree are those of the screens on display. Whatever was
-- built is on display or was dismissed, and then nothing is left of what was below it at any time.
-- Nothing is left of what was not presented.
theorem screens_accounted
    (hc : Course Engine.Operation.SparesRoots (Session.start p h global baseUrl) s) :
    (∀ n, s.engine.tree.IsRoot n ↔ n ∈ s.navigator.roots) ∧ s.navigator.roots.Nodup ∧
    (∀ r ∈ s.transcript.built,
      r ∈ s.navigator.roots ∧ r ∉ s.transcript.dismissed ∨
      r ∉ s.navigator.roots ∧ s.transcript.dismissed.count r = 1 ∧ ¬s.engine.tree.contains r ∧
        ∀ s₀ m, Proceeds Engine.Operation.SparesRoots (Session.start p h global baseUrl) s₀ →
          Proceeds Engine.Operation.SparesRoots s₀ s → r ∈ s₀.engine.tree.ancestors m →
          ¬s.engine.tree.contains m ∧ Table.get? s.engine.forms m = none ∧
            ∀ i x, s.engine.subscriptions.subscription? i = some x → x.node ≠ m) ∧
    (∀ s₀ d handoff error,
      Proceeds Engine.Operation.SparesRoots (Session.start p h global baseUrl) s₀ →
      (s₀.present d handoff).1 = .error error →
      Proceeds Engine.Operation.SparesRoots (s₀.present d handoff).2 s →
      s₀.engine.createRoot.1 ∉ s.navigator.roots ∧
        ¬s.engine.tree.contains s₀.engine.createRoot.1) := by
  have hb' : p.Builds fun _ _ _ => True := hb.mono fun _ => trivial
  have ha := accounts_of_proceeds hb hc.proceeds
  have hs := (hc.proceeds.reached hb').2
  obtain ⟨_, hnr, hd⟩ := List.nodup_append.mp ha.nodup
  refine ⟨fun n => ha.isRoot, hnr, fun r hr => ?built, fun s₀ d handoff error hg he hg' => ?refused⟩
  case built =>
    rcases List.mem_append.mp (ha.built.mem_iff.mp hr) with hr | hr
    case inr => exact .inl ⟨hr, fun hm => hd r hm r hr rfl⟩
    case inl =>
      have hn := (ha.spent hr).not_contains
      refine .inr ⟨fun hm => hd r hr r hm rfl, ?_, hn, fun s₀ m hg hg' hm => ?_⟩
      case refine_1 => exact List.count_eq_one_of_mem (List.nodup_append.mp ha.nodup).1 hr
      case refine_2 =>
        obtain ⟨hp₀, hs₀⟩ := hg.reached hb'
        have hl := hg'.leads (hp₀ ▸ hb'.transcribed) hs₀
        exact hl.nothing_left hs₀ hn hm
  case refused =>
    obtain ⟨hp₀, hs₀⟩ := hg.reached hb'
    have hb₀ := hp₀ ▸ hb.transcribed
    have hl₀ : Engine.Leads s₀.engine (s₀.present d handoff).2.engine :=
      leads_present (hp₀ ▸ hb'.transcribed) hs₀ rfl
    have hn := spent_of_present_error hb₀ hs₀ hp₀ (Prod.ext he rfl)
    have hp : (s₀.present d handoff).2.platform = p.transcribed := (platform_present rfl).trans hp₀
    have hl := hg'.leads (hp ▸ hb'.transcribed) (hl₀.sound hs₀)
    have hn := ((hl.later (hl₀.sound hs₀)).spent hn).not_contains
    exact ⟨fun hm => hn (ha.isRoot.mpr hm).1, hn⟩

end Screens

-- A screen is pushed, another one cannot be built, and the first one is popped.
def visited : Session (Unit × Transcript) :=
  ((launched.apply (.execute [push "details"] ⟨0, 0⟩ none)).apply
    (.execute [push "broken"] ⟨1, 0⟩ none)).apply (.execute [pop] ⟨1, 0⟩ none)

theorem visited_accounted :
    (∀ n, visited.engine.tree.IsRoot n ↔ n ∈ [⟨0, 0⟩]) ∧
      visited.transcript.dismissed.count ⟨1, 0⟩ = 1 ∧ ¬visited.engine.tree.contains ⟨1, 0⟩ := by
  have hc : Course Engine.Operation.SparesRoots (start fragile () .null none) visited :=
    .tail (.tail (.tail course_launched ⟨.execute _ _ _, trivial, rfl⟩)
      ⟨.execute _ _ _, trivial, rfl⟩) ⟨.execute _ _ _, trivial, rfl⟩
  obtain ⟨hr, _, hb, _⟩ := screens_accounted (fragile_builds fun _ => trivial) hc
  have hd := (hb ⟨1, 0⟩ (by decide)).resolve_left (by decide)
  exact ⟨hr, hd.2.1, hd.2.2.1⟩

end BindingEngine.Session
