import BindingEngine.Proofs.Session.Handoff
import BindingEngine.Proofs.Session.Target

namespace BindingEngine.Session

variable {σ : Type} {p : Platform σ} {s s' : Session (σ × Transcript)} {d : Destination}
variable {screen : Screen} {handoff : Handoff} {move : Move} {r : Except Error Unit}

structure Untouched (s s' : Session (σ × Transcript)) : Prop extends Unaffected s s' where
  engine : Engine.SameContent s.engine s'.engine

namespace Untouched

theorem of_sameContent (h : Engine.SameContent s.engine s'.engine) (hn : s'.navigator = s.navigator)
    (hd : s'.transcript.dismissed = s.transcript.dismissed) : Untouched s s' :=
  ⟨.of_sameContent h hn hd, h⟩

theorem report (s : Session (σ × Transcript)) (reports : List Report) :
    Untouched s (s.report reports) :=
  .of_sameContent ((Engine.SameContent.refl _).report reports) rfl rfl

theorem of_report {reports : List Report} (h : Untouched (s.report reports) s') : Untouched s s' :=
  ⟨h.toUnaffected.of_report, h.engine.node?, h.engine.subscription?, h.engine.form?, h.engine.global,
    h.engine.baseUrl⟩

theorem asked {x : Exchange} {host : σ × Transcript} (ht : host.2 = s.transcript ++ [x])
    (hx : x.dismissed? = none) (reports : List Report) :
    Untouched s { s.report reports with host } :=
  ⟨.asked ht hx reports, (Engine.SameContent.refl _).report reports⟩

end Untouched

section Moves

variable (hp : s.platform = p.transcribed) (hs : s.engine.Sound)
variable (hb : s.platform.Builds fun root e => Engine.Operation.Below e root)

theorem untouched_openNative {native : NativeScreen} (hp : s.platform = p.transcribed)
    (he : s.perform handoff (.openNative native) = (r, s')) (hn : s'.navigator = s.navigator) :
    Untouched s s' := by
  cases performed he
  case left ho => exact .asked (host_of_openNative hp ho) rfl _
  case cleared hd ho =>
    have hempty : s.navigator = {} := by
      rw [← hn, ← hd]
      exact navigator_dismiss
    rw [hempty] at hd
    subst hd
    have h := Untouched.asked (host_of_openNative hp ho) rfl [.openingNative native.screen]
    exact .of_sameContent h.engine hn h.dismissed

include hs in
theorem navigator_display_ne (ha : Arranged s) (hb : s.platform.Builds fun _ _ _ => True) {s₁}
    (he : s.present d handoff = (.ok screen, s₁)) (how : Presentation) :
    (s₁.display screen how).navigator ≠ s.navigator := by
  intro hn
  have hc := current?_display s₁ screen how
  rw [hn] at hc
  obtain ⟨hu, -⟩ := ha.present hb hs he
  rw [navigator_present he] at hu
  exact (List.nodup_cons.mp hu).1 (Navigator.mem_roots_of_current? hc)

include hp hs hb in
theorem untouched_present (ha : Arranged s) {how : Presentation}
    (he : s.perform handoff (.present how d) = (r, s')) (hn : s'.navigator = s.navigator) :
    Untouched s s' := by
  simp only [perform] at he
  split at he
  case h_1 hd =>
    cases he
    exact ⟨unaffected_present hp hs hb hd, sameContent_present hs hb hd⟩
  case h_2 hd =>
    cases he
    exact absurd hn (navigator_display_ne hs ha (hb.mono fun _ => trivial) hd how)

theorem untouched_back {how : Return String} (he : s.back how handoff = (r, s'))
    (hn : s'.navigator = s.navigator) : Untouched s s' := by
  obtain ⟨reports, removed, navigator, hpop, hback⟩ := s.back_eq how handoff
  rw [hback] at he
  have hr : s'.navigator = navigator := congrArg (·.2.navigator) he.symm |>.trans navigator_reveal
  obtain rfl : navigator = s.navigator := hr.symm.trans hn
  obtain rfl : removed = [] := List.append_left_eq_self.mp hpop.roots
  cases he
  exact .report s reports

include hp hs hb in
theorem untouched_perform (ha : Arranged s) (he : s.perform handoff move = (r, s'))
    (hn : s'.navigator = s.navigator) : Untouched s s' := by
  cases move
  case openUrl url =>
    cases performed he
    case openedUrl ho => exact .asked (host_of_openUrl hp ho) rfl _
  case openNative => exact untouched_openNative hp he hn
  case present => exact untouched_present hp hs hb ha he hn
  case back => exact untouched_back he hn

end Moves

variable {h : σ} {global : Value} {baseUrl : Option String} {n : Navigation} {origin : NodeId}
variable {implicit : List Context}

-- However a session has proceeded, a navigation that leaves the screens on display where they are leaves
-- everything as it was, whether it fails or not.
theorem untouched_of_navigator_eq (hb : p.Builds fun root e => Engine.Operation.Below e root)
    (hg : Proceeds (fun _ _ => True) (start p h global baseUrl) s)
    (he : s.navigate n origin implicit = (r, s')) (hn : s'.navigator = s.navigator) :
    Untouched s s' := by
  obtain ⟨hp, hs⟩ := hg.reached (hb.mono fun _ => trivial)
  have ha : Arranged s := hg.arranged (hb.mono fun _ => trivial)
  obtain ⟨reports, -, hm⟩ := s.navigate_eq n origin implicit
  rw [hm] at he
  split at he
  case h_1 =>
    cases he
    exact .report s reports
  case h_2 =>
    have ha' : Arranged (s.report reports) := ha.of_navigator_eq (.refl hs.forest) rfl
    exact .of_report (untouched_perform (s := s.report reports) hp (hs.report reports)
      (hp ▸ hb.transcribed) ha' he hn)

-- A screen that cannot be built, one that no value can be handed over to, a route that does not exist
-- and a way back where there is none.
def idle : List Navigation :=
  [.present .pushView (screenNamed "broken") none,
    .present (.resetApplication none) (screenNamed "details") misplaced,
    .openNative (.value "/nowhere") [] true, .back .view none, .back (.toView (.value "home")) none]

theorem launched_untouched :
    idle.Forall fun n => Untouched launched (launched.navigate n ⟨0, 0⟩ []).2 := by
  refine List.forall_iff_forall_mem.mpr fun n hn => ?_
  have hl : (launched.navigate n ⟨0, 0⟩ []).2.navigator = launched.navigator := by
    revert n
    decide
  exact untouched_of_navigator_eq fragile_builds_below course_launched.proceeds rfl hl

end BindingEngine.Session
