import BindingEngine.Proofs.Engine.Transient
import BindingEngine.Proofs.Navigation.Stacks
import BindingEngine.Session.Execution

open scoped List

namespace BindingEngine

namespace Engine

variable {e : Engine} {root n : NodeId} {handoff : Handoff} {error : Error}

def handed (e : Engine) (root : NodeId) : Handoff → Except Error Unit × Engine
  | none => (.ok (), e)
  | some (p, v) => e.handOver root p v

theorem leads_handed : Leads e (e.handed root handoff).2 := by
  cases handoff
  case none => exact .refl
  case some h => exact .single (.handOver e root h.1 h.2)

theorem ancestors_handed : (e.handed root handoff).2.tree.ancestors n = e.tree.ancestors n := by
  cases handoff
  case none => rfl
  case some => exact ancestors_handOver

theorem isRoot_handed : (e.handed root handoff).2.tree.IsRoot n ↔ e.tree.IsRoot n := by
  rw [Tree.isRoot_iff, Tree.isRoot_iff, ancestors_handed]

theorem sameOutside_handed (h : Sound e) (root : NodeId) (handoff : Handoff) :
    SameOutside root e (e.handed root handoff).2 := by
  cases handoff
  case none => exact .refl root e
  case some => exact sameOutside_handOver h root _ _

theorem kind_ne_platform_of_handed (h : (e.handed root handoff).1 = .error error) :
    error.kind ≠ .platform := by
  cases handoff
  case none => contradiction
  case some v =>
    have hh := handingOver e root v.1 v.2
    have h : (e.handOver root v.1 v.2).1 = .error error := h
    generalize (e.handOver root v.1 v.2).1 = r at hh h
    generalize (e.handOver root v.1 v.2).2 = e' at hh
    cases hh
    case missing => cases h; simp [Error.missingNode]
    case conflict => cases h; simp [Error.ofConflict]
    case done => contradiction

theorem leads_foldl_destroy (e : Engine) (roots : List NodeId) :
    Leads e (roots.foldl (fun e root => (e.destroy root).2) e) :=
  (Through.destroyAll e roots).leads

end Engine

-- A platform that builds a screen by operations that are allowed for its root.
def Platform.Builds {σ : Type} (p : Platform σ)
    (allowed : NodeId → Engine → Engine.Operation → Prop) : Prop :=
  ∀ h e root d, e.tree.IsRoot root → Engine.Through (allowed root) e (p.buildScreen h e root d).2.1

theorem Platform.Builds.mono {σ : Type} {p : Platform σ}
    {allowed allowed' : NodeId → Engine → Engine.Operation → Prop} (h : p.Builds allowed)
    (ha : ∀ {root e op}, allowed root e op → allowed' root e op) : p.Builds allowed' :=
  fun host e root d hr => Relation.ReflTransGen.mono
    (fun _ _ hs => hs.imp fun _ hs => hs.imp_left ha) _ _ (h host e root d hr)

namespace Session

variable {σ : Type} {s s' : Session σ} {d : Destination} {handoff : Handoff} {roots : List NodeId}

theorem handOver_eq (s : Session σ) (root : NodeId) (handoff : Handoff) :
    s.handOver root handoff =
      ((s.engine.handed root handoff).1, { s with engine := (s.engine.handed root handoff).2 }) := by
  cases handoff <;> rfl

inductive Presented (s : Session σ) (d : Destination) (handoff : Handoff) :
    Except Error Screen → Session σ → Prop
  | refused {error : Error} {engine : Engine} :
    s.engine.createRoot.2.handed s.engine.createRoot.1 handoff = (.error error, engine) →
    Presented s d handoff (.error error)
      { s with engine := (engine.destroy s.engine.createRoot.1).2 }
  | unbuilt {text : String} {engine engine' : Engine} {host : σ} :
    s.engine.createRoot.2.handed s.engine.createRoot.1 handoff = (.ok (), engine) →
    s.platform.buildScreen s.host engine s.engine.createRoot.1 d = (.error text, engine', host) →
    Presented s d handoff (.error (.ofPlatform text))
      { s with engine := (engine'.destroy s.engine.createRoot.1).2, host }
  | built {engine engine' : Engine} {host : σ} :
    s.engine.createRoot.2.handed s.engine.createRoot.1 handoff = (.ok (), engine) →
    s.platform.buildScreen s.host engine s.engine.createRoot.1 d = (.ok (), engine', host) →
    Presented s d handoff (.ok ⟨d.url?, d.identifier?, s.engine.createRoot.1⟩)
      { s with engine := engine'.report [.presented s.engine.createRoot.1 d.url?], host }

theorem presented {r : Except Error Screen} (he : s.present d handoff = (r, s')) :
    Presented s d handoff r s' := by
  suffices h : Presented s d handoff (s.present d handoff).1 (s.present d handoff).2 by rwa [he] at h
  unfold present prepare
  simp only [handOver_eq]
  generalize hh : s.engine.createRoot.2.handed s.engine.createRoot.1 handoff = handed
  obtain ⟨r, engine⟩ := handed
  cases r
  case error error => exact .refused hh
  case ok =>
    obtain ⟨⟨r, engine', host⟩, hb⟩ :
      ∃ built, s.platform.buildScreen s.host engine s.engine.createRoot.1 d = built := ⟨_, rfl⟩
    simp only [build, hb]
    cases r
    case error text => exact .unbuilt hh hb
    case ok => exact .built hh hb

theorem dismiss_eq (s : Session σ) (roots : List NodeId) : s.dismiss roots =
    { s with
      host := roots.foldl s.platform.dismissScreen s.host
      engine := roots.foldl (fun e root => (e.destroy root).2) s.engine } := by
  induction roots generalizing s
  case nil => rfl
  case cons root roots hi => exact hi _

theorem platform_dismiss : (s.dismiss roots).platform = s.platform := by
  rw [dismiss_eq]

theorem navigator_dismiss : (s.dismiss roots).navigator = s.navigator := by
  rw [dismiss_eq]

theorem navigator_handOver {root : NodeId} :
    (s.handOver root handoff).2.navigator = s.navigator := by
  rw [handOver_eq]

theorem display_eq (s : Session σ) (screen : Screen) (how : Presentation) : ∃ removed navigator,
    s.display screen how = { s with navigator }.dismiss removed ∧
      removed ++ navigator.roots ~ screen.root :: s.navigator.roots := by
  cases how
  case resetApplication controller =>
    exact ⟨_, _, rfl, s.navigator.roots_resetApplication screen controller⟩
  case resetStack => exact ⟨_, _, rfl, s.navigator.roots_resetStack screen⟩
  case pushStack controller =>
    exact ⟨[], _, rfl, .of_eq (s.navigator.roots_pushStack screen controller)⟩
  case pushView => exact ⟨[], _, rfl, .of_eq (s.navigator.roots_pushView screen)⟩

-- What going back can do. The screens that are taken away are dismissed before a value is handed over.
inductive Returned (s : Session σ) (handoff : Handoff) : Except Error Unit → Session σ → Prop
  | stayed (navigator : Navigator) (reports : List Report) : navigator.roots = s.navigator.roots →
    Returned s handoff (.ok ()) { s.report reports with navigator }
  | emptied {removed : List NodeId} {navigator : Navigator} (reports : List Report) : removed ≠ [] →
    removed ++ navigator.roots = s.navigator.roots → navigator.current? = none →
    Returned s handoff (.ok ()) ({ s.report reports with navigator }.dismiss removed)
  | uncovered {removed : List NodeId} {navigator : Navigator} {screen : Screen} (reports : List Report) :
    removed ≠ [] → removed ++ navigator.roots = s.navigator.roots →
    navigator.current? = some screen →
    Returned s handoff
      (({ s.report reports with navigator }.dismiss removed).handOver screen.root handoff).1
      (({ s.report reports with navigator }.dismiss removed).handOver screen.root handoff).2

theorem report_nil (s : Session σ) : s.report [] = s := by
  simp [report, Engine.report]

theorem back_eq (s : Session σ) (how : Return String) (handoff : Handoff) :
    ∃ (reports : List Report) (removed : List NodeId) (navigator : Navigator),
      s.navigator.Popped removed navigator ∧
      s.back how handoff = { s.report reports with navigator }.reveal removed handoff := by
  cases how
  case stack =>
    simp only [back]
    split
    case isTrue => exact ⟨_, _, _, s.navigator.popped_popStack, rfl⟩
    case isFalse => exact ⟨[], _, _, s.navigator.popped_popStack, by rw [report_nil]⟩
  case view =>
    simp only [back]
    split
    case isTrue => exact ⟨[], _, _, s.navigator.popped_popView, by rw [report_nil]⟩
    case isFalse =>
      split
      case isTrue => exact ⟨_, _, _, s.navigator.popped_popView, rfl⟩
      case isFalse => exact ⟨[], _, _, s.navigator.popped_popView, by rw [report_nil]⟩
  case toView target =>
    simp only [back]
    split
    case h_1 => exact ⟨[.unknownReturnTarget target], [], s.navigator, .refl s.navigator, rfl⟩
    case h_2 hn => exact ⟨[], _, _, Navigator.popped_popToView hn, by rw [report_nil]⟩

theorem returned {how : Return String} {r : Except Error Unit} (he : s.back how handoff = (r, s')) :
    Returned s handoff r s' := by
  suffices h : Returned s handoff (s.back how handoff).1 (s.back how handoff).2 by rwa [he] at h
  obtain ⟨reports, removed, navigator, hp, hb⟩ := s.back_eq how handoff
  rw [hb]
  by_cases hr : removed = []
  case pos =>
    subst hr
    exact .stayed navigator reports hp.roots
  case neg =>
    simp only [reveal, List.isEmpty_iff, hr, if_false, navigator_dismiss]
    cases hc : navigator.current?
    case none => exact .emptied reports hr hp.roots hc
    case some screen => exact .uncovered reports hr hp.roots hc

theorem uncovered_of_back {how : Return String} {error : Error}
    (he : s.back how handoff = (.error error, s')) :
    ∃ (reports : List Report) (removed : List NodeId) (navigator : Navigator) (screen : Screen),
    removed ≠ [] ∧ removed ++ navigator.roots = s.navigator.roots ∧
      ({ s.report reports with navigator }.dismiss removed).handOver screen.root handoff =
        (.error error, s') := by
  have hr := returned he
  generalize hr' : Except.error error = r at hr
  cases hr
  case stayed => contradiction
  case emptied => contradiction
  case uncovered removed navigator screen reports hr hn _ =>
    exact ⟨reports, removed, navigator, screen, hr, hn, rfl⟩

theorem platform_present {r : Except Error Screen} (he : s.present d handoff = (r, s')) :
    s'.platform = s.platform := by
  cases presented he <;> rfl

theorem navigator_present {r : Except Error Screen} (he : s.present d handoff = (r, s')) :
    s'.navigator = s.navigator := by
  cases presented he <;> rfl

theorem platform_back {how : Return String} {r : Except Error Unit}
    (he : s.back how handoff = (r, s')) : s'.platform = s.platform := by
  cases returned he
  case stayed => rfl
  case emptied => exact platform_dismiss
  case uncovered => rw [handOver_eq]; exact platform_dismiss

-- What carrying a navigation out can do. A screen outside that takes the place of those on display does
-- so before the platform is asked for it.
inductive Performed (s : Session σ) (handoff : Handoff) :
    Move → Except Error Unit → Session σ → Prop
  | openedUrl {url : String} {r : Except String Unit} {host : σ} :
    s.platform.openUrl s.host url = (r, host) →
    Performed s handoff (.openUrl url) (r.mapError .ofPlatform)
      { s.report [.openingUrl url] with host }
  | left {screen : NativeScreen} {r : Except String Unit} {host : σ} : ¬screen.resetApplication →
    s.platform.openNative s.host screen = (r, host) →
    Performed s handoff (.openNative screen) (r.mapError .ofPlatform)
      { s.report [.openingNative screen.screen] with host }
  | cleared {screen : NativeScreen} {s' : Session σ} {r : Except String Unit} {host : σ} :
    screen.resetApplication →
    { s.report [.openingNative screen.screen] with navigator := {} }.dismiss s.navigator.roots = s' →
    s'.platform.openNative s'.host screen = (r, host) →
    Performed s handoff (.openNative screen) (r.mapError .ofPlatform) { s' with host }
  | refused {how : Presentation} {d : Destination} {error : Error} {s' : Session σ} :
    s.present d handoff = (.error error, s') →
    Performed s handoff (.present how d) (.error error) s'
  | displayed {how : Presentation} {d : Destination} {screen : Screen} {s' : Session σ}
    {removed : List NodeId} {navigator : Navigator} : s.present d handoff = (.ok screen, s') →
    removed ++ navigator.roots ~ screen.root :: s'.navigator.roots →
    Performed s handoff (.present how d) (.ok ()) ({ s' with navigator }.dismiss removed)
  | returned {how : Return String} {r : Except Error Unit} {s' : Session σ} :
    s.back how handoff = (r, s') → Performed s handoff (.back how) r s'

theorem performed {move : Move} {r : Except Error Unit} (he : s.perform handoff move = (r, s')) :
    Performed s handoff move r s' := by
  suffices h : Performed s handoff move (s.perform handoff move).1 (s.perform handoff move).2 by
    rwa [he] at h
  cases move
  case openUrl => exact .openedUrl rfl
  case openNative screen =>
    by_cases hr : screen.resetApplication
    case pos =>
      simp only [perform, hr, if_true]
      exact .cleared hr rfl rfl
    case neg =>
      simp only [perform, hr, Bool.false_eq_true, if_false]
      exact .left hr rfl
  case present how d =>
    simp only [perform]
    split
    case h_1 he => exact .refused he
    case h_2 screen s' he =>
      obtain ⟨removed, navigator, hd, hn⟩ := display_eq s' screen how
      rw [hd]
      exact .displayed he hn
  case back how => exact .returned rfl

theorem platform_perform {move : Move} {r : Except Error Unit}
    (he : s.perform handoff move = (r, s')) : s'.platform = s.platform := by
  cases performed he
  case openedUrl => rfl
  case left => rfl
  case cleared hd _ => subst hd; exact platform_dismiss
  case refused hd => exact platform_present hd
  case displayed hd _ =>
    have hp := platform_present hd
    exact platform_dismiss.trans hp
  case returned hd => exact platform_back hd

section Engine

theorem leads_dismiss {e : Engine} (h : Engine.Leads e s.engine) :
    Engine.Leads e (s.dismiss roots).engine := by
  rw [dismiss_eq]
  exact h.trans (Engine.leads_foldl_destroy s.engine roots)

theorem leads_handOver {e : Engine} {root : NodeId} (h : Engine.Leads e s.engine) :
    Engine.Leads e (s.handOver root handoff).2.engine := by
  rw [handOver_eq]
  exact h.trans Engine.leads_handed

theorem leads_report (reports : List Report) : Engine.Leads s.engine (s.report reports).engine :=
  .single (.report s.engine reports)

theorem leads_back {how : Return String} {r : Except Error Unit}
    (he : s.back how handoff = (r, s')) : Engine.Leads s.engine s'.engine := by
  cases returned he
  case stayed reports _ => exact leads_report reports
  case emptied reports _ _ _ => exact leads_dismiss (leads_report reports)
  case uncovered reports _ _ _ => exact leads_handOver (leads_dismiss (leads_report reports))

theorem isRoot_handed_createRoot (hs : s.engine.Sound) {r : Except Error Unit} {engine : Engine}
    (h : s.engine.createRoot.2.handed s.engine.createRoot.1 handoff = (r, engine)) :
    engine.tree.IsRoot s.engine.createRoot.1 := by
  have he : (s.engine.createRoot.2.handed s.engine.createRoot.1 handoff).2 = engine :=
    congrArg Prod.snd h
  rw [← he, Engine.isRoot_handed]
  exact (Tree.isRoot_createRoot hs.forest).mpr (.inl rfl)

theorem leads_handed_createRoot {r : Except Error Unit} {engine : Engine}
    (h : s.engine.createRoot.2.handed s.engine.createRoot.1 handoff = (r, engine)) :
    Engine.Leads s.engine engine := by
  have he : (s.engine.createRoot.2.handed s.engine.createRoot.1 handoff).2 = engine :=
    congrArg Prod.snd h
  rw [← he]
  exact .head (.operation s.engine .createRoot) Engine.leads_handed

theorem through_build {allowed : NodeId → Engine → Engine.Operation → Prop}
    (hb : s.platform.Builds allowed) (hs : s.engine.Sound) {r : Except Error Unit}
    {r' : Except String Unit} {e e' : Engine} {host : σ}
    (hh : s.engine.createRoot.2.handed s.engine.createRoot.1 handoff = (r, e))
    (hc : s.platform.buildScreen s.host e s.engine.createRoot.1 d = (r', e', host)) :
    Engine.Through (allowed s.engine.createRoot.1) e e' := by
  have ht := hb s.host e s.engine.createRoot.1 d (isRoot_handed_createRoot hs hh)
  rwa [hc] at ht

variable (hp : s.platform.Builds fun _ _ _ => True) (hs : s.engine.Sound)

include hp hs

theorem leads_present {r : Except Error Screen} (he : s.present d handoff = (r, s')) :
    Engine.Leads s.engine s'.engine := by
  have hl {host : σ} {e e' : Engine} {r : Except String Unit}
      (hh : s.engine.createRoot.2.handed s.engine.createRoot.1 handoff = (.ok (), e))
      (hb : s.platform.buildScreen s.host e s.engine.createRoot.1 d = (r, e', host)) :
      Engine.Leads s.engine e' :=
    (leads_handed_createRoot hh).trans (through_build hp hs hh hb).leads
  cases presented he
  case refused hh => exact .tail (leads_handed_createRoot hh) (.operation _ (.destroy _))
  case unbuilt hh hb => exact .tail (hl hh hb) (.operation _ (.destroy _))
  case built hh hb => exact .tail (hl hh hb) (.report _ _)

theorem leads_perform {move : Move} {r : Except Error Unit}
    (he : s.perform handoff move = (r, s')) : Engine.Leads s.engine s'.engine := by
  cases performed he
  case openedUrl url _ _ _ => exact leads_report [.openingUrl url]
  case left screen _ _ _ _ => exact leads_report [.openingNative screen.screen]
  case cleared screen _ _ _ _ hd _ =>
    subst hd
    exact leads_dismiss (leads_report [.openingNative screen.screen])
  case refused hd => exact leads_present hp hs hd
  case displayed hd _ =>
    have hl := leads_present hp hs hd
    exact leads_dismiss hl
  case returned hd => exact leads_back hd

end Engine

end Session

end BindingEngine
