import BindingEngine.Proofs.Session.Course
import BindingEngine.Proofs.Session.History

namespace BindingEngine.Session

variable {σ : Type} {origin : NodeId} {implicit : List Context} {s s' : Session σ}
variable {actions : List Action} {r : Except Error Unit} {depth : Nat}

-- Actions run to their end, or until one of them fails or their node is gone. Nothing else happens when
-- there is more room on the stack.
structure Stops (implicit : List Context) (depth : Nat) (origin : NodeId) (actions : List Action)
    (s : Session σ) (t : List (Moment σ)) (r : Except Error Unit) (s' : Session σ) : Prop where
  executes : Executes implicit depth [] origin (.list 0 actions) s t r s'
  begins {action : Action} {rest : List Action} : actions = action :: rest →
    s.engine.tree.contains origin → t.head? = some (.started ⟨[], 0, origin, action, rest⟩ s)
  orderly : Orderly implicit [] 0 t r
  failed {e : Error} : r = .error e →
    isFatal (.error e) ∧ ∃ u s'', .stopped u (.error e) s'' ∈ t
  settled {depth' : Nat} : r ≠ .error .overflow → depth ≤ depth' →
    Executes implicit depth' [] origin (.list 0 actions) s t r s'

theorem Executes.stops {t : List (Moment σ)}
    (h : Executes implicit depth [] origin (.list 0 actions) s t r s') :
    Stops implicit depth origin actions s t r s' where
  executes := h
  begins he ho := by
    subst he
    obtain ⟨later, rfl⟩ := h.begins ho
    rfl
  orderly := h.orderly
  failed he := by
    subst he
    exact h.isFatal_of_error
  settled hr hd := h.mono hd hr

theorem isFatal_of_execute {event : Option Event} {e : Error}
    (h : (s.execute actions origin event depth).1 = .error e) : isFatal (.error e) := by
  unfold execute at h
  split at h
  case isTrue =>
    obtain ⟨t, ht⟩ := executes_runActions s actions origin _ depth
    exact (ht.stops.failed h).1
  case isFalse =>
    obtain rfl := Except.error.inj h
    rfl

theorem isFatal_of_complete {i : Nat} {outcome : Except RequestFailure Response} {e : Error}
    (h : (s.complete i outcome depth).1 = .error e) : isFatal (.error e) := by
  cases hp : Table.get? s.pending i
  case none =>
    simp only [complete, hp] at h
    contradiction
  case some pending =>
    by_cases ho : s.engine.tree.contains pending.origin
    case neg =>
      rw [complete_of_not_contains outcome hp depth ho] at h
      contradiction
    case pos =>
      obtain ⟨_, _, r, _, _, _, _, hx, hx', hr⟩ := handled_complete outcome hp depth ho
      rw [hr] at h
      cases r
      case error =>
        obtain rfl := Except.error.inj h
        exact (hx.stops.failed rfl).1
      case ok => exact (hx'.stops.failed h).1

-- Actions start for live nodes only, a recoverable error keeps none of them from running, and every
-- other one keeps all of them. What a request ends with runs after its handlers in any case, and the
-- first error is returned.
theorem execution_stops (s : Session σ) (depth : Nat) :
    (∀ actions origin event, s.engine.tree.contains origin →
      ∃ implicit t, implicit = (event.map fun e => Context.mk e.name e.value).toList ∧
        Stops implicit depth origin actions s t (s.execute actions origin event depth).1
          (s.execute actions origin event depth).2) ∧
    (∀ i pending outcome, Table.get? s.pending i = some pending →
      s.engine.tree.contains pending.origin →
      ∃ implicit t r s' t' r' s'', Informs outcome implicit ∧
        Stops implicit depth pending.origin (pending.handlers outcome) (s.answered i) t r s' ∧
        Stops [] depth pending.origin pending.onFinish s' t' r' s'' ∧
        s.complete i outcome depth = (r.bind fun _ => r', s'')) ∧
    (∀ actions origin event e, (s.execute actions origin event depth).1 = .error e →
      isFatal (.error e)) ∧
    ∀ i outcome e, (s.complete i outcome depth).1 = .error e → isFatal (.error e) := by
  refine ⟨fun actions origin event ho => ?execute, fun i pending outcome hp ho => ?complete,
    fun _ _ _ _ h => isFatal_of_execute h, fun _ _ _ h => isFatal_of_complete h⟩
  case execute =>
    rw [execute, if_pos ho]
    obtain ⟨t, ht⟩ := executes_runActions s actions origin
      (event.map fun e => Context.mk e.name e.value).toList depth
    exact ⟨_, t, rfl, ht.stops⟩
  case complete =>
    obtain ⟨implicit, t, r, s', t', r', hi, hx, hx', hr⟩ := handled_complete outcome hp depth ho
    exact ⟨implicit, t, r, s', t', r', _, hi, hx.stops, hx'.stops, Prod.ext hr rfl⟩

def leaving : List Action :=
  [.condition (.value true)
    [.navigate (.present (.resetApplication none) (screenNamed "login") none), push "late"] [],
    push "late"]

def filled : Session (Unit × Transcript) :=
  launched.apply (.adjust (.declareForm ⟨0, 0⟩ ⟨leaving, []⟩))

theorem executes_filled : ∃ t s', Executes [] 1 [] ⟨0, 0⟩ (.list 0 [.submitForm, push "late"]) filled t
    (.ok ()) s' ∧ t.map (·.turn.place) = [[0], [0, 0], [0, 0, 0], [0, 0, 0], [0, 0], [0]] ∧
    s'.navigator.roots = [⟨1, 0⟩] :=
  ⟨_, _, .next (by decide) (.submitted rfl rfl (.next (by decide) (.decided rfl
    (.next (by decide) (.navigated rfl) (by decide) (.tornDown (by decide)))) (by decide)
    (.tornDown (by decide)))) (by decide) (.tornDown (by decide)), rfl, rfl⟩

def awaited : Pending where
  origin := ⟨0, 0⟩
  onSuccess := [.setContext "unknown" none (.value .null), push "broken", push "late"]
  onError := []
  onFinish := [push "last"]

def awaiting : Session (Unit × Transcript) :=
  { launched with pending := [(0, awaited)] }

theorem launched_stops : filled.engine.tree.contains ⟨0, 0⟩ ∧
    (∃ t s', Stops [] 1 ⟨0, 0⟩ [.submitForm, push "late"] filled t (.ok ()) s' ∧
      t.map (·.turn.place) = [[0], [0, 0], [0, 0, 0], [0, 0, 0], [0, 0], [0]] ∧
      filled.execute [.submitForm, push "late"] ⟨0, 0⟩ none 1 = (.ok (), s')) ∧
    Table.get? awaiting.pending 0 = some awaited ∧ awaiting.engine.tree.contains awaited.origin ∧
    ∃ implicit t r s' t' r' s'', Informs (.ok {}) implicit ∧
      Stops implicit 0 ⟨0, 0⟩ awaited.onSuccess (awaiting.answered 0) t r s' ∧
      Stops [] 0 ⟨0, 0⟩ awaited.onFinish s' t' r' s'' ∧
      (r.bind fun _ => r') = .error (.ofPlatform "no such screen") ∧
      s''.navigator.roots = [⟨1, 1⟩, ⟨0, 0⟩] := by
  have ho : filled.engine.tree.contains ⟨0, 0⟩ := by decide
  have ho' : awaiting.engine.tree.contains ⟨0, 0⟩ := by decide
  obtain ⟨t, s', hx, ht, _⟩ := executes_filled
  obtain ⟨_, _, rfl, hs⟩ :=
    (execution_stops filled 1).1 [.submitForm, push "late"] ⟨0, 0⟩ none ho
  obtain ⟨rfl, hr, hs'⟩ := hs.executes.unique hx
  obtain ⟨implicit, t', r, s'', t'', r', s''', hi, h, h', hc⟩ :=
    (execution_stops awaiting 0).2.1 0 awaited (.ok {}) rfl ho'
  obtain ⟨hc₁, hc₂⟩ := Prod.mk.inj hc
  refine ⟨ho, ⟨_, s', hr ▸ hs' ▸ hs, ht, Prod.ext hr hs'⟩, rfl, ho', implicit, t', r, s'', t'', r', s''',
    hi, h, h', hc₁.symm, ?_⟩
  rw [← hc₂]
  rfl

end BindingEngine.Session
