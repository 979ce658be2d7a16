import BindingEngine.Session.Execution

namespace BindingEngine

def Pending.handlers (pending : Pending) : Except RequestFailure Response → List Action
  | .ok _ => pending.onSuccess
  | .error _ => pending.onError

def outcomeContext : Except RequestFailure Response → Context
  | .ok response => response.context
  | .error failure => failure.context

def outcomeId : Except RequestFailure Response → String
  | .ok _ => "onSuccess"
  | .error _ => "onError"

def outcomeFields : Except RequestFailure Response → Table String Value
  | .ok r => [("data", r.data), ("status", .int (.ofNat r.status)), ("statusText", .string r.statusText)]
  | .error f => [
    ("data", f.data),
    ("status", .ofOption (f.status.map fun n => .int (.ofNat n))),
    ("statusText", .ofOption (f.statusText.map .string)),
    ("message", .string f.message)]

namespace Session

variable {σ : Type}

-- Whoever sees these contexts reads of an outcome, and of everything else what there is to be read anyway.
structure Informs (outcome : Except RequestFailure Response) (implicit : List Context) : Prop where
  own {τ : Type} (s : Session τ) (origin : NodeId) :
    s.resolver origin implicit (outcomeId outcome) = some (.map (outcomeFields outcome))
  other {τ : Type} (s : Session τ) (origin : NodeId) {id : String} : id ≠ outcomeId outcome →
    s.resolver origin implicit id = s.resolver origin [] id

theorem informs_outcomeContext (outcome : Except RequestFailure Response) :
    Informs outcome [outcomeContext outcome] where
  own s origin := by
    cases outcome <;> rfl
  other s origin id hid := by
    have hc : (outcomeContext outcome).id = outcomeId outcome := by cases outcome <;> rfl
    have hn : (outcomeContext outcome).id ≠ id := hc ▸ hid.symm
    simp only [resolver, Engine.scope, Scope.resolve, hn, decide_false, Bool.false_eq_true,
      not_false_eq_true, List.find?_cons_of_neg, List.find?_nil]
    refine Option.bind_congr fun l _ => ?_
    cases l <;> rfl

-- An action whose turn it is in its list. The list is known by the positions of the actions that it
-- runs within, the innermost first.
structure Turn where
  list : List Nat
  position : Nat
  origin : NodeId
  action : Action
  rest : List Action

namespace Turn

def place (t : Turn) : List Nat := t.position :: t.list

def next (t : Turn) (action : Action) (rest : List Action) : Turn :=
  { t with position := t.position + 1, action, rest }

end Turn

inductive Moment (σ : Type)
  | started (t : Turn) (s : Session σ)
  | stopped (t : Turn) (r : Except Error Unit) (s : Session σ)

namespace Moment

def turn : Moment σ → Turn
  | started t _ => t
  | stopped t _ _ => t

def span (t : Turn) (s : Session σ) (inner : List (Moment σ)) (r : Except Error Unit)
    (s' : Session σ) : List (Moment σ) :=
  started t s :: (inner ++ [stopped t r s'])

end Moment

-- Whether nothing can run after an action with this result.
def isFatal : Except Error Unit → Bool
  | .ok () => false
  | .error e => e.kind ≠ .unresolvedContext ∧ e.kind ≠ .structuralConflict

theorem isFatal_error (e : Error) : isFatal (.error e) = !e.isRecoverable := by
  simp [isFatal, Error.isRecoverable]

-- Notes an error that the actions after it can run with.
def noting (s : Session σ) (action : Action) : Except Error Unit → Session σ
  | .ok () => s
  | .error e => s.report [.recovered action.kindName e]

inductive Work
  | action (action : Action)
  | list (position : Nat) (actions : List Action)

-- How work goes that is done for an origin while the stack has some depth left: what happens, the result
-- and the session that it leads to.
inductive Executes (implicit : List Context) : Nat → List Nat → NodeId → Work → Session σ →
    List (Moment σ) → Except Error Unit → Session σ → Prop
  | setContext {depth : Nat} {list : List Nat} {origin : NodeId} {s s' : Session σ} {id : String}
    {path : Option Path} {value : Data} {r : Except Error Unit} :
    s.setContext id path value origin implicit = (r, s') →
    Executes implicit depth list origin (.action (.setContext id path value)) s [] r s'
  | decided {depth : Nat} {list : List Nat} {origin : NodeId} {s s' : Session σ}
    {test : Expression Bool} {onTrue onFalse : List Action} {holds : Bool} {t : List (Moment σ)}
    {r : Except Error Unit} : test.evaluate (s.resolver origin implicit) = some holds →
    Executes implicit depth list origin (.list 0 (if holds then onTrue else onFalse))
      (s.report (test.reports (s.resolver origin implicit))) t r s' →
    Executes implicit depth list origin (.action (.condition test onTrue onFalse)) s t r s'
  | undecided {depth : Nat} {list : List Nat} {origin : NodeId} {s : Session σ}
    {test : Expression Bool} {onTrue onFalse : List Action} :
    test.evaluate (s.resolver origin implicit) = none →
    Executes implicit depth list origin (.action (.condition test onTrue onFalse)) s [] (.ok ())
      ((s.report (test.reports (s.resolver origin implicit))).report [.noCondition])
  | unsent {depth : Nat} {list : List Nat} {origin : NodeId} {s : Session σ}
    {url : Expression String} {method : Option (Expression Method)}
    {headers : Option (Expression Headers)} {data : Option Data}
    {onSuccess onError onFinish : List Action} {reports : List Report} :
    s.request? url method headers data (s.resolver origin implicit) = (none, reports) →
    Executes implicit depth list origin
      (.action (.sendRequest url method headers data onSuccess onError onFinish)) s [] (.ok ())
      (s.report reports)
  | sent {depth : Nat} {list : List Nat} {origin : NodeId} {s s' : Session σ}
    {url : Expression String} {method : Option (Expression Method)}
    {headers : Option (Expression Headers)} {data : Option Data}
    {onSuccess onError onFinish : List Action} {request : Request} {reports : List Report}
    {r : Except Error Unit} :
    s.request? url method headers data (s.resolver origin implicit) = (some request, reports) →
    (s.report reports).send request ⟨origin, onSuccess, onError, onFinish⟩ = (r, s') →
    Executes implicit depth list origin
      (.action (.sendRequest url method headers data onSuccess onError onFinish)) s [] r s'
  | navigated {depth : Nat} {list : List Nat} {origin : NodeId} {s s' : Session σ} {n : Navigation}
    {r : Except Error Unit} : s.navigate n origin implicit = (r, s') →
    Executes implicit depth list origin (.action (.navigate n)) s [] r s'
  | formless {depth : Nat} {list : List Nat} {origin : NodeId} {s : Session σ} :
    s.engine.enclosingForm? origin = none →
    Executes implicit (depth + 1) list origin (.action .submitForm) s [] (.ok ())
      (s.report [.noForm])
  | submitted {depth : Nat} {list : List Nat} {origin node : NodeId} {s s' : Session σ} {form : Form}
    {valid : Bool} {host : σ} {t : List (Moment σ)} {r : Except Error Unit} :
    s.engine.enclosingForm? origin = some (node, form) →
    s.platform.validateForm s.host s.engine node = (valid, host) →
    Executes implicit depth list node
      (.list 0 (if valid then form.onSubmit else form.onValidationError))
      ({ s with host }.report [if valid then .submitting node else .invalidForm node]) t r s' →
    Executes implicit (depth + 1) list origin (.action .submitForm) s t r s'
  | overflowed {list : List Nat} {origin : NodeId} {s : Session σ} :
    Executes implicit 0 list origin (.action .submitForm) s [] (.error .overflow) s
  | done {depth : Nat} {list : List Nat} {position : Nat} {origin : NodeId} {s : Session σ} :
    Executes implicit depth list origin (.list position []) s [] (.ok ()) s
  | tornDown {depth : Nat} {list : List Nat} {position : Nat} {origin : NodeId} {s : Session σ}
    {action : Action} {rest : List Action} : ¬s.engine.tree.contains origin →
    Executes implicit depth list origin (.list position (action :: rest)) s [] (.ok ())
      (s.report [.originTornDown action.kindName])
  | failed {depth : Nat} {list : List Nat} {position : Nat} {origin : NodeId} {s s' : Session σ}
    {action : Action} {rest : List Action} {inner : List (Moment σ)} {r : Except Error Unit} :
    s.engine.tree.contains origin →
    Executes implicit depth (position :: list) origin (.action action)
      (s.report [.running action.kindName]) inner r s' →
    isFatal r →
    Executes implicit depth list origin (.list position (action :: rest)) s
      (Moment.span ⟨list, position, origin, action, rest⟩ s inner r s') r s'
  | next {depth : Nat} {list : List Nat} {position : Nat} {origin : NodeId} {s s' s'' : Session σ}
    {action : Action} {rest : List Action} {inner later : List (Moment σ)}
    {r r' : Except Error Unit} : s.engine.tree.contains origin →
    Executes implicit depth (position :: list) origin (.action action)
      (s.report [.running action.kindName]) inner r s' →
    ¬isFatal r →
    Executes implicit depth list origin (.list (position + 1) rest) (s'.noting action r) later r' s'' →
    Executes implicit depth list origin (.list position (action :: rest)) s
      (Moment.span ⟨list, position, origin, action, rest⟩ s inner r s' ++ later) r' s''

section

variable {implicit : List Context} {origin : NodeId} {depth : Nat} {list : List Nat}
variable {s s' s'' : Session σ} {r r' : Except Error Unit} {t t' : List (Moment σ)}

theorem runAll_cons {submit : NodeId → List Context → Session σ → Step σ} {action : Action}
    {actions : List Action} (ho : s.engine.tree.contains origin)
    (he : run submit origin implicit action (s.report [.running action.kindName]) = (r, s')) :
    runAll submit origin implicit (action :: actions) s =
      if isFatal r then (r, s') else runAll submit origin implicit actions (s'.noting action r) := by
  rw [runAll, if_pos ho, he]
  cases r
  case ok => rfl
  case error e =>
    by_cases hr : e.isRecoverable
    case pos => simp [isFatal_error, noting, hr]
    case neg => simp [isFatal_error, hr]

def Submits (σ : Type) (implicit : List Context) (depth : Nat) : Prop :=
  ∀ list n (s : Session σ), ∃ t, Executes implicit depth list n (.action .submitForm) s t
    (submit depth n implicit s).1 (submit depth n implicit s).2

mutual

theorem executes_run (hs : Submits σ implicit depth) (list : List Nat) :
    (action : Action) → (s : Session σ) →
    ∃ t, Executes implicit depth list origin (.action action) s t
      (run (submit depth) origin implicit action s).1 (run (submit depth) origin implicit action s).2
  | .setContext .., s => by
    rw [run]
    exact ⟨[], .setContext rfl⟩
  | .condition test onTrue onFalse, s => by
    simp only [run]
    cases he : test.evaluate (s.resolver origin implicit)
    case none => exact ⟨[], .undecided he⟩
    case some holds =>
      cases holds
      case true =>
        obtain ⟨t, ht⟩ := executes_runAll hs list 0 onTrue _
        exact ⟨t, .decided he ht⟩
      case false =>
        obtain ⟨t, ht⟩ := executes_runAll hs list 0 onFalse _
        exact ⟨t, .decided he ht⟩
  | .sendRequest .., s => by
    rw [run]
    split
    case h_1 hr => exact ⟨[], .unsent hr⟩
    case h_2 hr => exact ⟨[], .sent hr rfl⟩
  | .navigate n, s => by
    rw [run]
    exact ⟨[], .navigated rfl⟩
  | .submitForm, s => by
    rw [run]
    exact hs list origin s

theorem executes_runAll (hs : Submits σ implicit depth) (list : List Nat) (position : Nat) :
    (actions : List Action) → (s : Session σ) →
    ∃ t, Executes implicit depth list origin (.list position actions) s t
      (runAll (submit depth) origin implicit actions s).1
      (runAll (submit depth) origin implicit actions s).2
  | [], s => by
    rw [runAll]
    exact ⟨[], .done⟩
  | action :: actions, s => by
    by_cases ho : s.engine.tree.contains origin
    case neg =>
      rw [runAll, if_neg ho]
      exact ⟨[], .tornDown ho⟩
    case pos =>
      obtain ⟨⟨r, s'⟩, he⟩ : ∃ ended,
        run (submit depth) origin implicit action (s.report [.running action.kindName]) = ended :=
        ⟨_, rfl⟩
      obtain ⟨inner, hi⟩ := executes_run hs (position :: list) action
        (s.report [.running action.kindName])
      rw [he] at hi
      rw [runAll_cons ho he]
      by_cases hf : isFatal r
      case pos =>
        rw [if_pos hf]
        exact ⟨_, .failed ho hi hf⟩
      case neg =>
        rw [if_neg hf]
        obtain ⟨later, hl⟩ := executes_runAll hs list (position + 1) actions (s'.noting action r)
        exact ⟨_, .next ho hi hf hl⟩

end

theorem executes_submit (depth : Nat) : Submits σ implicit depth := by
  induction depth
  case zero => exact fun _ _ _ => ⟨[], .overflowed⟩
  case succ depth hi =>
    intro list n s
    simp only [submit]
    cases hn : s.engine.enclosingForm? n
    case none => exact ⟨[], .formless hn⟩
    case some found =>
      obtain ⟨node, form⟩ := found
      obtain ⟨⟨valid, host⟩, hv⟩ :
        ∃ validated, s.platform.validateForm s.host s.engine node = validated := ⟨_, rfl⟩
      simp only [hv]
      cases valid
      case true =>
        obtain ⟨t, ht⟩ := executes_runAll hi list 0 form.onSubmit
          ({ s with host }.report [.submitting node])
        exact ⟨t, .submitted hn hv ht⟩
      case false =>
        obtain ⟨t, ht⟩ := executes_runAll hi list 0 form.onValidationError
          ({ s with host }.report [.invalidForm node])
        exact ⟨t, .submitted hn hv ht⟩

theorem executes_runActions (s : Session σ) (actions : List Action) (origin : NodeId)
    (implicit : List Context) (depth : Nat) :
    ∃ t, Executes implicit depth [] origin (.list 0 actions) s t
      (s.runActions actions origin implicit depth).1 (s.runActions actions origin implicit depth).2 :=
  executes_runAll (executes_submit depth) [] 0 actions s

theorem Executes.unique {w : Work} (h : Executes implicit depth list origin w s t r s')
    (h' : Executes implicit depth list origin w s t' r' s'') : t = t' ∧ r = r' ∧ s' = s'' := by
  have hstep {x : Step σ} {r r' : Except Error Unit} {s' s'' : Session σ} (he : x = (r, s'))
      (he' : x = (r', s'')) : ([] : List (Moment σ)) = [] ∧ r = r' ∧ s' = s'' :=
    ⟨rfl, Prod.mk.inj (he.symm.trans he')⟩
  induction h generalizing t' r' s''
  case setContext he =>
    cases h'
    case setContext he' => exact hstep he he'
  case decided he _ hi =>
    cases h'
    case decided he' ht =>
      obtain rfl := Option.some.inj (he.symm.trans he')
      exact hi ht
    case undecided he' => cases he.symm.trans he'
  case undecided he =>
    cases h'
    case decided he' _ => cases he.symm.trans he'
    case undecided => exact ⟨rfl, rfl, rfl⟩
  case unsent he =>
    cases h'
    case unsent he' =>
      obtain rfl := (Prod.mk.inj (he.symm.trans he')).2
      exact ⟨rfl, rfl, rfl⟩
    case sent he' _ => cases he.symm.trans he'
  case sent he hr =>
    cases h'
    case unsent he' => cases he.symm.trans he'
    case sent he' hr' =>
      obtain ⟨hq, rfl⟩ := Prod.mk.inj (he.symm.trans he')
      obtain rfl := Option.some.inj hq
      exact hstep hr hr'
  case navigated he =>
    cases h'
    case navigated he' => exact hstep he he'
  case formless he =>
    cases h'
    case formless => exact ⟨rfl, rfl, rfl⟩
    case submitted he' _ => cases he.symm.trans he'
  case submitted he hv _ hi =>
    cases h'
    case formless he' => cases he.symm.trans he'
    case submitted hv' he' ht =>
      obtain ⟨rfl, rfl⟩ := Prod.mk.inj (Option.some.inj (he.symm.trans he'))
      obtain ⟨rfl, rfl⟩ := Prod.mk.inj (hv.symm.trans hv')
      exact hi ht
  case overflowed =>
    cases h'
    case overflowed => exact ⟨rfl, rfl, rfl⟩
  case done =>
    cases h'
    case done => exact ⟨rfl, rfl, rfl⟩
  case tornDown ho =>
    cases h'
    case tornDown => exact ⟨rfl, rfl, rfl⟩
    case failed ho' _ _ => exact absurd ho' ho
    case next ho' _ _ => exact absurd ho' ho
  case failed ho _ hf hi =>
    cases h'
    case tornDown ho' => exact absurd ho ho'
    case failed hf' ht =>
      obtain ⟨rfl, rfl, rfl⟩ := hi ht
      exact ⟨rfl, rfl, rfl⟩
    case next hf' _ ht _ =>
      obtain ⟨rfl, rfl, rfl⟩ := hi ht
      exact absurd hf hf'
  case next ho _ hf _ hi hl =>
    cases h'
    case tornDown ho' => exact absurd ho ho'
    case failed hf' ht =>
      obtain ⟨rfl, rfl, rfl⟩ := hi ht
      exact absurd hf' hf
    case next hf' _ ht hu =>
      obtain ⟨rfl, rfl, rfl⟩ := hi ht
      obtain ⟨rfl, rfl, rfl⟩ := hl hu
      exact ⟨rfl, rfl, rfl⟩

theorem Executes.mono {w : Work} {depth' : Nat} (hd : depth ≤ depth')
    (h : Executes implicit depth list origin w s t r s') (hr : r ≠ .error .overflow) :
    Executes implicit depth' list origin w s t r s' := by
  induction h generalizing depth'
  case setContext he => exact .setContext he
  case decided he _ hi => exact .decided he (hi hd hr)
  case undecided he => exact .undecided he
  case unsent he => exact .unsent he
  case sent he hs => exact .sent he hs
  case navigated he => exact .navigated he
  case formless he =>
    obtain ⟨depth', rfl⟩ := Nat.exists_eq_add_one_of_ne_zero (Nat.ne_zero_of_lt hd)
    exact .formless he
  case submitted he hv _ hi =>
    obtain ⟨depth', rfl⟩ := Nat.exists_eq_add_one_of_ne_zero (Nat.ne_zero_of_lt hd)
    exact .submitted he hv (hi (Nat.le_of_succ_le_succ hd) hr)
  case overflowed => contradiction
  case done => exact .done
  case tornDown ho => exact .tornDown ho
  case failed ho _ hf hi => exact .failed ho (hi hd hr) hf
  case next ho _ hf _ hi hl =>
    refine .next ho (hi hd ?_) hf (hl hd hr)
    rintro rfl
    exact hf rfl

end

section Complete

variable {s : Session σ} {i : Nat} {pending : Pending} (outcome : Except RequestFailure Response)

def answered (s : Session σ) (i : Nat) : Session σ :=
  { s with pending := Table.erase s.pending i }

-- The handlers for an outcome run from the origin of a request, where they see the outcome, and the last
-- ones run after them. The first error counts.
def Handled (depth : Nat) (pending : Pending) (outcome : Except RequestFailure Response)
    (s : Session σ) (step : Step σ) : Prop :=
  ∃ implicit t r s' t' r', Informs outcome implicit ∧
    Executes implicit depth [] pending.origin (.list 0 (pending.handlers outcome)) s t r s' ∧
    Executes [] depth [] pending.origin (.list 0 pending.onFinish) s' t' r' step.2 ∧
    step.1 = r.bind fun _ => r'

variable (h : Table.get? s.pending i = some pending)

include h

theorem complete_of_not_contains (depth : Nat) (ho : ¬s.engine.tree.contains pending.origin) :
    s.complete i outcome depth = (.ok (), (s.answered i).report [.originGone]) := by
  simp only [complete, h, ho]
  rfl

theorem complete_of_contains {depth : Nat} (ho : s.engine.tree.contains pending.origin)
    {ran finished : Step σ} (hr : ran = (s.answered i).runActions (pending.handlers outcome)
      pending.origin [outcomeContext outcome] depth)
    (hf : finished = ran.2.runActions pending.onFinish pending.origin [] depth) :
    s.complete i outcome depth = (ran.1.bind fun _ => finished.1, finished.2) := by
  cases outcome
  all_goals
    simp only [Pending.handlers, outcomeContext, answered] at hr
    simp only [complete, h, ho, if_true, ← hr, ← hf]
    obtain ⟨r, s'⟩ := ran
    cases r <;> rfl

theorem handled_complete (depth : Nat) (ho : s.engine.tree.contains pending.origin) :
    Handled depth pending outcome (s.answered i) (s.complete i outcome depth) := by
  rw [complete_of_contains outcome h ho rfl rfl]
  obtain ⟨t, ht⟩ := executes_runActions (s.answered i) (pending.handlers outcome) pending.origin
    [outcomeContext outcome] depth
  obtain ⟨t', ht'⟩ := executes_runActions _ pending.onFinish pending.origin [] depth
  exact ⟨_, t, _, _, t', _, informs_outcomeContext outcome, ht, ht', rfl⟩

end Complete

end Session

end BindingEngine
