import BindingEngine.Proofs.Session.Failure

namespace BindingEngine

theorem Engine.eq_of_setContext {e e' : Engine} {id : String} {p : Path} {v : Value} {n : NodeId}
    {error : Error} (h : e.setContext id p v n = (.error error, e')) : e' = e := by
  have hm := mutation e id p v n
  rw [h] at hm
  cases hm <;> rfl

namespace Session

variable {σ : Type} {p : Platform σ} {s s' : Session (σ × Transcript)} {d : Destination}
variable {handoff : Handoff} {error : Error} {origin : NodeId} {implicit : List Context}

-- What happened besides is heard of by nobody but the log.
def Silently (s s' : Session (σ × Transcript)) : Prop :=
  ∃ reports, (∀ r ∈ reports, r.isSilent) ∧ s'.engine.journal = s.engine.journal ++ reports

theorem Silently.of_report {reports : List Report} (hr : ∀ r ∈ reports, r.isSilent)
    (h : Silently (s.report reports) s') : Silently s s' := by
  obtain ⟨more, hm, hj⟩ := h
  refine ⟨reports ++ more, fun r h => (List.mem_append.mp h).elim (hr r) (hm r), ?_⟩
  rw [← List.append_assoc]
  exact hj

theorem not_isRecoverable_ofPlatform (text : String) : ¬(Error.ofPlatform text).isRecoverable := by
  simp [Error.ofPlatform, Error.isRecoverable]

theorem unaffected_setContext {id : String} {path : Option Path} {value : Data}
    (he : s.setContext id path value origin implicit = (.error error, s')) :
    Unaffected s s' ∧ Silently s s' := by
  simp only [setContext] at he
  generalize hr : Engine.setContext _ id _ _ origin = r at he
  obtain ⟨r, e⟩ := r
  cases he
  have hr := Engine.eq_of_setContext hr
  subst hr
  refine ⟨.of_sameContent ((Engine.SameContent.refl _).report _) rfl rfl, ?_⟩
  exact ⟨_, fun r hr => Data.isSilent_of_mem hr, rfl⟩

theorem unaffected_refused (hs : s.engine.Sound)
    (he : s.present d handoff = (.error error, s')) (hr : error.isRecoverable) :
    Unaffected s s' ∧ Silently s s' := by
  cases presented he
  case unbuilt text _ _ _ _ _ => exact absurd hr (not_isRecoverable_ofPlatform text)
  case refused e hh =>
    refine ⟨.of_sameContent (sameContent_refused hs hh) rfl rfl, ?_⟩
    obtain ⟨reports, hq, hj⟩ := e.journal_destroy s.engine.createRoot.1
    refine ⟨reports, hq, hj.trans (congrArg (· ++ reports) ?_)⟩
    exact (Engine.journal_of_handed hh).trans rfl

theorem dismissed_of_back (hp : s.platform = p.transcribed) {how : Return String}
    (he : s.back how handoff = (.error error, s')) : ∃ removed, removed ≠ [] ∧
      removed ++ s'.navigator.roots = s.navigator.roots ∧
      s'.transcript.dismissed = s.transcript.dismissed ++ removed := by
  obtain ⟨reports, removed, navigator, screen, hr, hn, hh⟩ := uncovered_of_back he
  have hs' : (({ s.report reports with navigator }.dismiss removed).handOver screen.root handoff).2 =
    s' := congrArg Prod.snd hh
  subst hs'
  refine ⟨removed, hr, ?_, ?_⟩
  case refine_1 => rwa [navigator_handOver, navigator_dismiss]
  case refine_2 =>
    rw [handOver_eq]
    exact dismissed_dismiss (s := { s.report reports with navigator }) hp removed

theorem not_unaffected_of_back (hp : s.platform = p.transcribed) {how : Return String}
    (he : s.back how handoff = (.error error, s')) : ¬Unaffected s s' := by
  obtain ⟨removed, hr, _, hd⟩ := dismissed_of_back hp he
  exact fun hu => hr (List.append_right_eq_self.mp (hd.symm.trans hu.dismissed))

theorem present_or_back_of_perform {move : Move}
    (he : s.perform handoff move = (.error error, s')) (hr : error.isRecoverable) :
    (∃ how, s.back how handoff = (.error error, s') ∧ move = .back how) ∨
      ∃ how d, s.present d handoff = (.error error, s') ∧ move = .present how d := by
  have hplatform {r : Except String Unit} (h : .error error = r.mapError Error.ofPlatform) :
      False := by
    cases r
    case error text =>
      cases h
      exact not_isRecoverable_ofPlatform text hr
    case ok => contradiction
  have hd := performed he
  generalize hr' : Except.error error = r at hd
  cases hd
  case openedUrl => exact (hplatform hr').elim
  case left => exact (hplatform hr').elim
  case cleared => exact (hplatform hr').elim
  case refused how d _ hd =>
    cases hr'
    exact .inr ⟨how, d, hd, rfl⟩
  case displayed => contradiction
  case returned how hd => exact .inl ⟨how, hr' ▸ hd, rfl⟩

variable {h : σ} {global : Value} {baseUrl : Option String}

-- A recoverable error of a step leaves everything as it was, unless the step leads back. Then the screens
-- that it takes away are dismissed before the value turns out not to fit.
theorem recoverable_step (hb : p.Builds fun _ _ _ => True)
    (hc : Course (fun _ _ => True) (start p h global baseUrl) s) {action : Action} {depth : Nat}
    (ha : (∃ id path value, action = .setContext id path value) ∨ ∃ n, action = .navigate n)
    (he : run (submit depth) origin implicit action s = (.error error, s'))
    (hr : error.isRecoverable) :
    (Unaffected s s' ∧ Silently s s' ↔ ¬∃ how context, action = .navigate (.back how context)) ∧
    ((∃ how context, action = .navigate (.back how context)) → ∃ removed, removed ≠ [] ∧
      removed ++ s'.navigator.roots = s.navigator.roots ∧
      s'.transcript.dismissed = s.transcript.dismissed ++ removed) := by
  obtain ⟨hp, hs⟩ := hc.proceeds.reached hb
  rcases ha with ⟨id, path, value, rfl⟩ | ⟨n, rfl⟩
  case inl =>
    rw [run] at he
    exact ⟨iff_of_true (unaffected_setContext he) (by simp), by simp⟩
  case inr =>
    rw [run] at he
    obtain ⟨reports, hq, hn | ⟨handoff, move, hm, hn⟩⟩ := navigate_cases s n origin implicit
    case inl =>
      rw [hn] at he
      cases he
    case inr =>
      rw [hn] at he
      have hback : (∃ how context, Action.navigate n = .navigate (.back how context)) ↔
          ∃ how, move = .back how := by
        rw [← hm.back_iff]
        simp
      rw [hback]
      obtain ⟨how, hd, rfl⟩ | ⟨how, d, hd, rfl⟩ := present_or_back_of_perform he hr
      case inl =>
        have hnot : ¬Unaffected s s' := fun hu =>
          not_unaffected_of_back (s := s.report reports) hp hd
            ⟨hu.navigator, hu.contains, hu.context?, hu.global, hu.resolve, hu.subscription?,
              hu.dismissed⟩
        exact ⟨iff_of_false (fun hu => hnot hu.1) (fun hn => hn ⟨how, rfl⟩),
          fun _ => dismissed_of_back (s := s.report reports) hp hd⟩
      case inr =>
        obtain ⟨hu, hj⟩ := unaffected_refused (hs.report reports) hd hr
        exact ⟨iff_of_true ⟨hu.of_report, hj.of_report hq⟩ (by simp), by simp⟩

-- A value for a place that no new array reaches.
def misplaced : NavigationContext := ⟨some [.index 5000], .value (.int 1)⟩

theorem launched_unaffected_of_refused :
    Unaffected launched
      (run (submit maxSubmissions) ⟨0, 0⟩ [] (push "details" misplaced) launched).2 := by
  have he : run (submit maxSubmissions) ⟨0, 0⟩ [] (push "details" misplaced) launched =
    (.error (.ofConflict ⟨.index 5000, .null⟩),
      (run (submit maxSubmissions) ⟨0, 0⟩ [] (push "details" misplaced) launched).2) := rfl
  have hb : fragile.Builds fun _ _ _ => True := fragile_builds fun _ => trivial
  refine ((recoverable_step hb course_launched (.inr ⟨_, rfl⟩) he (by decide)).1.mpr ?_).1
  rintro ⟨_, _, hn⟩
  cases hn

-- The screen that goes back is gone although the value does not fit the screen below, which has an empty
-- value in place of none.
def deepened : Session (Unit × Transcript) :=
  launched.apply (.execute [push "details"] ⟨0, 0⟩ none)

theorem exists_recoverable_step : ∃ s s' : Session (Unit × Transcript), ∃ error,
    Course (fun _ _ => True) (start fragile () .null none) s ∧
    s.engine.tree.contains ⟨1, 0⟩ ∧
    run (submit maxSubmissions) ⟨1, 0⟩ [] (pop misplaced) s = (.error error, s') ∧
    error.isRecoverable ∧ s.navigator.roots = [⟨1, 0⟩, ⟨0, 0⟩] ∧ s'.navigator.roots = [⟨0, 0⟩] ∧
    s'.transcript.dismissed = [⟨1, 0⟩] ∧ ¬s'.engine.tree.contains ⟨1, 0⟩ ∧
    s.engine.resolve "navigationContext" ⟨0, 0⟩ = none ∧
    s'.engine.resolve "navigationContext" ⟨0, 0⟩ = some .null ∧ ¬Unaffected s s' := by
  refine ⟨deepened, (run (submit maxSubmissions) ⟨1, 0⟩ [] (pop misplaced) deepened).2,
    .ofConflict ⟨.index 5000, .null⟩, course_launched.tail ⟨.execute _ _ _, trivial, rfl⟩,
    ?_, rfl, ?_, rfl, rfl, rfl, ?_, ?_, ?_, fun hu => ?_⟩
  case refine_1 => decide
  case refine_2 => decide
  case refine_3 => decide
  case refine_4 => rfl
  case refine_5 => rfl
  case refine_6 => exact absurd hu.navigator (by decide)

end Session

end BindingEngine
