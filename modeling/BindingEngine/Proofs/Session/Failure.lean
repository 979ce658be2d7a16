import BindingEngine.Proofs.Engine.Removal
import BindingEngine.Proofs.Session.Course
import BindingEngine.Proofs.Session.Evaluation

namespace BindingEngine

namespace Engine

variable {e e' : Engine} {root : NodeId} {handoff : Handoff} {error : Error}

theorem journal_of_handed (h : e.handed root handoff = (.error error, e')) :
    e'.journal = e.journal := by
  cases handoff
  case none => cases h
  case some v =>
    have hh := handingOver e root v.1 v.2
    have h : e.handOver root v.1 v.2 = (.error error, e') := h
    rw [h] at hh
    cases hh <;> rfl

end Engine

namespace Session

variable {σ : Type} {p : Platform σ} {s s' : Session (σ × Transcript)} {d : Destination}
variable {handoff : Handoff} {error : Error}

structure Unaffected (s s' : Session (σ × Transcript)) : Prop where
  navigator : s'.navigator = s.navigator
  contains (n : NodeId) : s'.engine.tree.contains n = s.engine.tree.contains n
  context? (n : NodeId) (id : String) :
    s'.engine.tree.context? n id = s.engine.tree.context? n id
  global : s'.engine.global = s.engine.global
  resolve (id : String) (n : NodeId) : s'.engine.resolve id n = s.engine.resolve id n
  subscription? (i : Nat) :
    s'.engine.subscriptions.subscription? i = s.engine.subscriptions.subscription? i
  dismissed : s'.transcript.dismissed = s.transcript.dismissed

theorem Unaffected.of_sameContent (h : Engine.SameContent s.engine s'.engine)
    (hn : s'.navigator = s.navigator) (hd : s'.transcript.dismissed = s.transcript.dismissed) :
    Unaffected s s' :=
  ⟨hn, h.contains, h.context?, h.global, h.resolve, h.subscription?, hd⟩

theorem Unaffected.asked {x : Exchange} {host : σ × Transcript} (ht : host.2 = s.transcript ++ [x])
    (hx : x.dismissed? = none) (reports : List Report) :
    Unaffected s { s.report reports with host } := by
  refine .of_sameContent ((Engine.SameContent.refl _).report reports) rfl ?_
  have hd : Transcript.dismissed host.2 = Transcript.dismissed s.transcript := by
    simp [ht, Transcript.dismissed, hx]
  exact hd

theorem dismissed_dismiss (hp : s.platform = p.transcribed) (roots : List NodeId) :
    (s.dismiss roots).transcript.dismissed = s.transcript.dismissed ++ roots := by
  rw [transcript_dismiss hp, Transcript.dismissed, List.filterMap_append, List.filterMap_map]
  exact congrArg _ List.filterMap_some

section Presentation

variable (hs : s.engine.Sound) {r : Except Error Unit} {e : Engine}
variable (hh : s.engine.createRoot.2.handed s.engine.createRoot.1 handoff = (r, e))

include hs hh

theorem sameOutside_handed_createRoot :
    Engine.SameOutside s.engine.createRoot.1 s.engine.createRoot.2 e := by
  have ho := Engine.sameOutside_handed (hs.apply .createRoot) s.engine.createRoot.1 handoff
  rwa [show (s.engine.apply .createRoot).handed _ handoff = _ from hh] at ho

theorem sameContent_refused :
    Engine.SameContent s.engine (e.destroy s.engine.createRoot.1).2 :=
  Engine.sameContent_destroy hs ((leads_handed_createRoot hh).sound hs)
    (sameOutside_handed_createRoot hs hh) (isRoot_handed_createRoot hs hh)

theorem sameContent_unbuilt {e' : Engine} {host : σ × Transcript} {r : Except String Unit}
    (hb : s.platform.Builds fun root e => Engine.Operation.Below e root)
    (hc : s.platform.buildScreen s.host e s.engine.createRoot.1 d = (r, e', host)) :
    Engine.SameContent s.engine (e'.destroy s.engine.createRoot.1).2 := by
  have hl := leads_handed_createRoot hh
  have hr := isRoot_handed_createRoot hs hh
  have ht := through_build hb hs hh hc
  have hl' : Engine.Leads s.engine e' := hl.trans ht.leads
  exact Engine.sameContent_destroy hs (hl'.sound hs)
    ((sameOutside_handed_createRoot hs hh).trans (ht.sameOutside (hl.sound hs) id))
    ((ht.isRoot_iff (hl.sound hs) Engine.Operation.Below.sparesRoots).mpr hr)

omit hh in
theorem sameContent_present (hb : s.platform.Builds fun root e => Engine.Operation.Below e root)
    (he : s.present d handoff = (.error error, s')) : Engine.SameContent s.engine s'.engine := by
  cases presented he
  case refused hh => exact sameContent_refused hs hh
  case unbuilt hh hc => exact sameContent_unbuilt hs hh hb hc

end Presentation

section Navigation

variable (hp : s.platform = p.transcribed) (hs : s.engine.Sound)

theorem Unaffected.of_report {reports : List Report} (h : Unaffected (s.report reports) s') :
    Unaffected s s' :=
  ⟨h.navigator, h.contains, h.context?, h.global, h.resolve, h.subscription?, h.dismissed⟩

include hp

theorem cleared_of_perform {screen : NativeScreen} {r : Except Error Unit}
    (he : s.perform handoff (.openNative screen) = (r, s')) (hr : screen.resetApplication) :
    s'.navigator = {} ∧
      s'.transcript.dismissed = s.transcript.dismissed ++ s.navigator.roots := by
  cases performed he
  case left hn _ => exact absurd hr hn
  case cleared s' _ _ _ hd ho =>
    have ht := congrArg Transcript.dismissed
      (host_of_openNative (hd ▸ platform_dismiss.trans hp : s'.platform = p.transcribed) ho)
    have hds := dismissed_dismiss (s := { s.report [.openingNative screen.screen] with
      navigator := {} }) hp s.navigator.roots
    refine ⟨hd ▸ navigator_dismiss, ht.trans ?_⟩
    rw [Transcript.dismissed_append, ← hd, hds]
    exact List.append_nil _

include hs

theorem unaffected_present (hb : s.platform.Builds fun root e => Engine.Operation.Below e root)
    (he : s.present d handoff = (.error error, s')) : Unaffected s s' := by
  refine .of_sameContent (sameContent_present hs hb he) (navigator_present he) ?_
  cases presented he
  case refused => rfl
  case unbuilt hh hc =>
    have ht := host_of_build hp hc
    exact (congrArg _ ht).trans ((Transcript.dismissed_append ..).trans (List.append_nil _))

theorem unaffected_perform (hb : s.platform.Builds fun root e => Engine.Operation.Below e root)
    {move : Move} (he : s.perform handoff move = (.error error, s')) (hk : error.kind = .platform)
    (hm : ∀ screen, move = .openNative screen → screen.resetApplication →
      s.navigator.presented = []) : Unaffected s s' := by
  have hd := performed he
  generalize hr : Except.error error = r at hd
  cases hd
  case openedUrl ho => exact .asked (host_of_openUrl hp ho) rfl _
  case left ho => exact .asked (host_of_openNative hp ho) rfl _
  case cleared screen s' _ _ hreset hd ho =>
    have hn : s.navigator = {} := congrArg Navigator.mk (hm screen rfl hreset)
    rw [hn] at hd
    subst hd
    have hu := Unaffected.asked (host_of_openNative hp ho) rfl [.openingNative screen.screen]
    exact ⟨hn.symm, hu.contains, hu.context?, hu.global, hu.resolve, hu.subscription?, hu.dismissed⟩
  case refused hd =>
    cases hr
    exact unaffected_present hp hs hb hd
  case displayed => contradiction
  case returned hd =>
    rw [← hr] at hd
    obtain ⟨_, _, _, screen, _, _, hh⟩ := uncovered_of_back hd
    rw [handOver_eq] at hh
    exact absurd hk (Engine.kind_ne_platform_of_handed (congrArg Prod.fst hh))

end Navigation

theorem run_of_execute {action : Action} {origin : NodeId} {event : Option Event} {depth : Nat}
    (h : s.execute [action] origin event depth = (.error error, s')) (hk : error.kind = .platform) :
    run (submit depth) origin (event.map fun e => ⟨e.name, e.value⟩).toList action
      (s.report [.running action.kindName]) = (.error error, s') := by
  simp only [execute, runActions, runAll] at h
  split at h
  case isFalse =>
    cases h
    contradiction
  case isTrue ho =>
    split at h
    case h_1 => cases h
    case h_2 e s₁ hr =>
      split at h
      case isTrue => cases h
      case isFalse =>
        cases h
        exact hr

variable {h : σ} {global : Value} {baseUrl : Option String}

-- A navigation that fails on the platform has no effect, except that the screens on display are dismissed
-- when a screen outside was to take their place.
theorem failed_navigation (hb : p.Builds fun root e => Engine.Operation.Below e root)
    (hc : Course (fun _ _ => True) (start p h global baseUrl) s) {n : Navigation} {origin : NodeId}
    {event : Option Event} {depth : Nat}
    (he : s.execute [.navigate n] origin event depth = (.error error, s'))
    (hk : error.kind = .platform) :
    (Unaffected s s' ↔
      ¬∃ route data, n = .openNative route data true ∧ s.navigator.presented ≠ []) ∧
    ((∃ route data, n = .openNative route data true) →
      s'.navigator = {} ∧
        s'.transcript.dismissed = s.transcript.dismissed ++ s.navigator.roots) := by
  obtain ⟨hp, hs⟩ := hc.proceeds.reached (hb.mono fun _ => trivial)
  have hb' := hp ▸ hb.transcribed
  have hr := run_of_execute he hk
  rw [run] at hr
  obtain ⟨reports, _, hn | ⟨handoff, move, hm, hn⟩⟩ := navigate_cases
    (s.report [.running (Action.navigate n).kindName]) n origin
    (event.map fun e => ⟨e.name, e.value⟩).toList
  case inl =>
    rw [hn] at hr
    cases hr
  case inr =>
    rw [hn, report_report] at hr
    generalize [Report.running (Action.navigate n).kindName] ++ reports = reports at hr
    have hd : (∃ route data, n = .openNative route data true) → s'.navigator = {} ∧
        s'.transcript.dismissed = s.transcript.dismissed ++ s.navigator.roots := by
      rw [hm.resets_iff]
      rintro ⟨screen, rfl, hreset⟩
      exact cleared_of_perform (s := s.report reports) hp hr hreset
    refine ⟨⟨fun ha => ?_, fun hn => ?_⟩, hd⟩
    case refine_1 =>
      rintro ⟨route, data, hn, hne⟩
      exact hne (congrArg _ (ha.navigator.symm.trans (hd ⟨route, data, hn⟩).1))
    case refine_2 =>
      refine (unaffected_perform (s := s.report reports) hp (hs.report reports) hb' hr hk ?_).of_report
      intro screen hscreen hreset
      obtain ⟨route, data, hroute⟩ := hm.resets_iff.mpr ⟨screen, hscreen, hreset⟩
      exact Decidable.not_not.mp fun hne => hn ⟨route, data, hroute, hne⟩

theorem launched_unaffected :
    Unaffected launched (launched.execute [push "broken"] ⟨0, 0⟩ none).2 := by
  have hb : fragile.Builds fun root e => Engine.Operation.Below e root :=
    fragile_builds fun hr _ => Tree.mem_ancestors_self hr
  have he : launched.execute [push "broken"] ⟨0, 0⟩ none =
    (.error (.ofPlatform "no such screen"), (launched.execute [push "broken"] ⟨0, 0⟩ none).2) := rfl
  refine (failed_navigation hb course_launched he rfl).1.mpr ?_
  rintro ⟨_, _, hn, _⟩
  cases hn

def reset : Action :=
  .navigate (.openNative (.value "/pay") [] true)

def linked : Session (Unit × Transcript) :=
  launched.apply (.registerDeepLink "/pay" "Pay")

theorem exists_failed_navigation : ∃ s s' : Session (Unit × Transcript),
    Course (fun _ _ => True) (start fragile () .null none) s ∧
    s.execute [reset] ⟨0, 0⟩ none = (.error (.ofPlatform "cannot reach Pay"), s') ∧
    s.navigator.roots = [⟨0, 0⟩] ∧ s'.navigator.roots = [] ∧
    s'.transcript.dismissed = [⟨0, 0⟩] ∧ ¬s'.engine.tree.contains ⟨0, 0⟩ ∧ ¬Unaffected s s' := by
  refine ⟨linked, (linked.execute [reset] ⟨0, 0⟩ none).2,
    course_launched.tail ⟨.registerDeepLink "/pay" "Pay", trivial, rfl⟩, rfl, rfl, rfl, rfl, ?_, ?_⟩
  case refine_1 => decide
  case refine_2 => exact fun h => absurd h.navigator (by decide)

end Session

end BindingEngine
