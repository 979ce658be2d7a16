import BindingEngine.Proofs.Binary64.Arithmetic
import BindingEngine.Proofs.Expr.Consumption
import BindingEngine.Proofs.Table

namespace BindingEngine

namespace Value

inductive Finite : Value → Prop
  | null : Finite .null
  | bool (b : Bool) : Finite (.bool b)
  | int (i : Int64) : Finite (.int i)
  | double {x : Binary64} : x.isFinite → Finite (.double x)
  | string (s : String) : Finite (.string s)
  | array {items : List Value} : (∀ v ∈ items, Finite v) → Finite (.array items)
  | map {entries : List (String × Value)} : (∀ e ∈ entries, Finite e.2) → Finite (.map entries)

variable {v w : Value} {s : Segment} {p : Path} {x : Binary64}

theorem finite_double_iff : (double x).Finite ↔ x.isFinite := by
  constructor
  case mp => exact fun | .double h => h
  case mpr => exact .double

namespace Finite

theorem step? (h : v.Finite) (hw : v.step? s = some w) : w.Finite := by
  cases s
  case key k =>
    obtain ⟨entries, he, hk⟩ := Option.bind_eq_some_iff.mp hw
    cases h <;> cases he
    case map h => exact h (k, w) (Table.mem_of_get? hk)
  case index i =>
    obtain ⟨items, he, hi⟩ := Option.bind_eq_some_iff.mp hw
    cases h <;> cases he
    case array h => exact h w (List.mem_of_getElem? hi)

theorem get? (h : v.Finite) (hw : v.get? p = some w) : w.Finite := by
  induction p generalizing v
  case nil => exact Option.some.inj hw ▸ h
  case cons s p hi =>
    obtain ⟨u, hu, hw⟩ := Option.bind_eq_some_iff.mp hw
    exact hi (h.step? hu) hw

theorem ofOption {o : Option Value} (h : ∀ v, o = some v → v.Finite) : (Value.ofOption o).Finite := by
  cases o
  case none => exact .null
  case some v => exact h v rfl

theorem ofInt? (i : Int) : ∀ v, Value.ofInt? i = some v → v.Finite := by
  intro v hv
  unfold Value.ofInt? at hv
  split at hv
  case isTrue =>
    cases hv
    exact .int _
  case isFalse => contradiction

theorem ofFinite (x : Binary64) : (Value.ofFinite x).Finite := by
  unfold Value.ofFinite
  split
  case isTrue h => exact .double h
  case isFalse => exact .null

end Finite

end Value

namespace Binary64

theorem neg_infinity (negative : Bool) : (infinity negative).neg = infinity !negative := by
  cases negative <;> decide

theorem isFinite_neg (x : Binary64) : x.neg.isFinite = x.isFinite := by
  rw [isFinite, neg, magnitude_ofMagnitude x.magnitude_lt]
  rfl

theorem not_isFinite_infinity (negative : Bool) : ¬(infinity negative).isFinite := by
  cases negative <;> decide

end Binary64

open Value (Finite)

namespace BinaryOp

theorem finite_arithmetic (exact : Int → Int → Option Int) (inexact : Binary64 → Binary64 → Binary64)
    (a b : Value) : (arithmetic exact inexact a b).Finite := by
  simp only [arithmetic]
  split
  case h_1 v hv =>
    split at hv
    case h_1 =>
      obtain ⟨i, _, hi⟩ := Option.bind_eq_some_iff.mp hv
      exact .ofInt? i v hi
    case h_2 => contradiction
  case h_2 =>
    split
    case h_1 => exact .ofFinite _
    case h_2 => exact .null

theorem finite_apply (op : BinaryOp) (a b : Value) : (op.apply a b).Finite := by
  have hbool (o : Option Bool) : (Value.ofOption (o.map .bool)).Finite := by
    cases o
    case none => exact .null
    case some b => exact .bool b
  cases op
  case add =>
    simp only [apply]
    split
    case h_1 => exact .string _
    case h_2 => exact finite_arithmetic _ _ _ _
  case sub | mul =>
    simp only [apply]
    exact finite_arithmetic _ _ _ _
  case div | rem =>
    simp only [apply]
    split
    case isTrue => exact .null
    case isFalse => exact finite_arithmetic _ _ _ _
  case and | or => exact .null
  all_goals exact hbool _

end BinaryOp

theorem UnaryOp.finite_apply (op : UnaryOp) {v : Value} (h : v.Finite) : (op.apply v).Finite := by
  unfold UnaryOp.apply
  split
  case h_1 => exact .bool _
  case h_2 => exact .ofOption (.ofInt? _)
  case h_3 => exact .double ((Binary64.isFinite_neg _).trans (Value.finite_double_iff.mp h))
  case h_4 => exact .null

namespace Expr

variable {resolve : Resolver} {e : Expr}

-- The infinite literal that an evaluation ends with, once it has been chosen and its signs are known.
inductive EndsInfinite (resolve : Resolver) : Expr → Bool → Prop
  | literal (negative : Bool) : EndsInfinite resolve (literal (.double (.infinity negative))) negative
  | neg {e : Expr} {negative : Bool} : EndsInfinite resolve e negative →
    EndsInfinite resolve (unary .neg e) !negative
  | whenTrue {condition whenTrue whenFalse : Expr} {negative : Bool} :
    condition.evaluate resolve = .bool true → EndsInfinite resolve whenTrue negative →
    EndsInfinite resolve (conditional condition whenTrue whenFalse) negative
  | whenFalse {condition whenTrue whenFalse : Expr} {negative : Bool} :
    condition.evaluate resolve = .bool false → EndsInfinite resolve whenFalse negative →
    EndsInfinite resolve (conditional condition whenTrue whenFalse) negative

theorem EndsInfinite.evaluate_eq {negative : Bool} (h : EndsInfinite resolve e negative) :
    e.evaluate resolve = .double (.infinity negative) := by
  induction h
  case literal => rfl
  case neg hi => rw [evaluate, hi, UnaryOp.apply, Binary64.neg_infinity]
  case whenTrue hc _ hi => simp only [evaluate, hc, hi]
  case whenFalse hc _ hi => simp only [evaluate, hc, hi]

mutual

def Literals (p : Value → Prop) : Expr → Prop
  | literal v => p v
  | read _ steps => StepLiterals p steps
  | unary _ operand => operand.Literals p
  | binary _ left right => left.Literals p ∧ right.Literals p
  | conditional condition whenTrue whenFalse =>
    condition.Literals p ∧ whenTrue.Literals p ∧ whenFalse.Literals p

def StepLiterals (p : Value → Prop) : List Accessor → Prop
  | [] => True
  | .static _ :: rest => StepLiterals p rest
  | .computed e :: rest => e.Literals p ∧ StepLiterals p rest

end

variable (hr : ∀ id v, resolve id = some v → v.Finite)

include hr

theorem finite_read (context : String) (steps : List Accessor) :
    ((read context steps).evaluate resolve).Finite := by
  rw [evaluate]
  split
  case h_1 => exact .null
  case h_2 v hv =>
    refine .ofOption fun w hw => ?_
    obtain ⟨p, _, hp⟩ := follow?_eq_some hw
    exact (hr context v hv).get? hp

theorem finite_or_endsInfinite {reason : Prop} (e : Expr)
    (hl : e.Literals fun v => v.Finite ∨ (∃ negative, v = .double (.infinity negative)) ∧ reason) :
    (e.evaluate resolve).Finite ∨ (∃ negative, EndsInfinite resolve e negative) ∧ reason := by
  match e with
  | .literal v =>
    obtain h | ⟨⟨negative, rfl⟩, h⟩ := hl
    case inl => exact .inl h
    case inr => exact .inr ⟨⟨negative, .literal negative⟩, h⟩
  | .read context steps => exact .inl (finite_read hr context steps)
  | .unary op operand =>
    rw [evaluate]
    obtain h | ⟨⟨negative, he⟩, h⟩ := finite_or_endsInfinite operand hl
    case inl => exact .inl (op.finite_apply h)
    case inr =>
      cases op
      case not =>
        rw [he.evaluate_eq]
        exact .inl .null
      case neg => exact .inr ⟨⟨_, .neg he⟩, h⟩
  | .binary op left right =>
    refine .inl ?_
    cases op
    case and | or =>
      simp only [evaluate]
      split
      case h_2 =>
        split
        case h_1 => exact .bool _
        case h_2 => exact .null
      all_goals first | exact .bool _ | exact .null
    all_goals exact BinaryOp.finite_apply _ _ _
  | .conditional condition whenTrue whenFalse =>
    rw [evaluate]
    split
    case h_1 hc =>
      refine (finite_or_endsInfinite whenTrue hl.2.1).imp_right (And.imp_left ?_)
      rintro ⟨negative, he⟩
      exact ⟨negative, .whenTrue hc he⟩
    case h_2 hc =>
      refine (finite_or_endsInfinite whenFalse hl.2.2).imp_right (And.imp_left ?_)
      rintro ⟨negative, he⟩
      exact ⟨negative, .whenFalse hc he⟩
    case h_3 => exact .inl .null

end Expr

end BindingEngine
