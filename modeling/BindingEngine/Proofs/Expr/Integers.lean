import Mathlib.Algebra.Order.Field.Rat
import Mathlib.Data.Int.Cast.Lemmas
import BindingEngine.Expr.Evaluation
import BindingEngine.Proofs.Binary64.Arithmetic

namespace BindingEngine

namespace BinaryOp

def arithmetical : List BinaryOp := [add, sub, mul, div, rem]

-- The exact result for two integers. Nothing is divided by zero.
def exactResult? : BinaryOp → Int → Int → Option ℚ
  | add, i, j => some ((i + j : Int) : ℚ)
  | sub, i, j => some ((i - j : Int) : ℚ)
  | mul, i, j => some ((i * j : Int) : ℚ)
  | div, i, j => if j = 0 then none else some ((i : ℚ) / (j : ℚ))
  | rem, i, j => if j = 0 then none else some ((i.tmod j : Int) : ℚ)
  | _, _, _   => none

end BinaryOp

namespace Value

-- The values that are right for a result: the integer if it is one that fits, a double if not, and null if
-- there is no result.
inductive Exact : Option ℚ → Value → Prop
  | int (i : Int64) : Exact (some (i.toInt : ℚ)) (.int i)
  | double {q : ℚ} (x : Binary64) :
    (∀ i : Int64, (i.toInt : ℚ) ≠ q) → x.isFinite → Exact (some q) (.double x)
  | null : Exact none .null

variable {a b : Int64} {q : ℚ} {k : Int} {v : Value}

theorem Exact.eq_int (h : Exact (some (a.toInt : ℚ)) v) : v = .int a := by
  generalize hq : some (a.toInt : ℚ) = q at h
  cases h
  case int i =>
    have hi : a.toInt = i.toInt := Int.cast_inj.mp (Option.some.inj hq)
    rw [Int64.toInt_inj.mp hi]
  case double q x hn _ => exact absurd (Option.some.inj hq) (hn a)
  case null => contradiction

theorem Exact.ne_null (h : Exact (some q) v) : v ≠ .null := by
  generalize hq : some q = q at h
  cases h
  case null => contradiction
  all_goals exact Value.noConfusion

theorem toInt_bounds (a : Int64) :
    -9223372036854775808 ≤ a.toInt ∧ a.toInt < 9223372036854775808 :=
  ⟨a.le_toInt, a.toInt_lt⟩

theorem fits_iff : (Int64.minValue.toInt ≤ k ∧ k ≤ Int64.maxValue.toInt) ↔
    -9223372036854775808 ≤ k ∧ k < 9223372036854775808 :=
  and_congr_right fun _ => Int.le_iff_lt_add_one

theorem ofInt?_toInt (a : Int64) : ofInt? a.toInt = some (.int a) := by
  rw [ofInt?, if_pos ⟨a.minValue_le_toInt, a.toInt_le⟩, Int64.ofInt_toInt]

theorem ofInt?_cases (k : Int) : (∃ i : Int64, i.toInt = k ∧ ofInt? k = some (.int i)) ∨
    ofInt? k = none ∧ ∀ i : Int64, i.toInt ≠ k := by
  by_cases hk : Int64.minValue.toInt ≤ k ∧ k ≤ Int64.maxValue.toInt
  case pos =>
    obtain ⟨h₁, h₂⟩ := fits_iff.mp hk
    exact .inl ⟨.ofInt k, Int64.toInt_ofInt_of_le h₁ h₂, if_pos hk⟩
  case neg =>
    refine .inr ⟨if_neg hk, ?_⟩
    rintro i rfl
    exact hk ⟨i.minValue_le_toInt, i.toInt_le⟩

theorem upTo_ofInt (a : Int64) : (Binary64.ofInt a.toInt).UpTo 64 := by
  have h := toInt_bounds a
  have hp : Nat.pow 2 64 = 18446744073709551616 := rfl
  exact Binary64.upTo_ofInt (by omega)

end Value

open Value (Exact)

variable {a b : Int64} {q : ℚ} {i j : Int} {op : BinaryOp}

namespace BinaryOp

theorem exact_arithmetic {exact : Int → Int → Option Int} {inexact : Binary64 → Binary64 → Binary64}
    (he : ∀ i : Int64, exact a.toInt b.toInt = some i.toInt ↔ (i.toInt : ℚ) = q)
    (hf : (∀ i : Int64, (i.toInt : ℚ) ≠ q) → (inexact (.ofInt a.toInt) (.ofInt b.toInt)).isFinite) :
    Exact (some q) (arithmetic exact inexact (.int a) (.int b)) := by
  simp only [arithmetic, Value.number?]
  cases hv : (exact a.toInt b.toInt).bind Value.ofInt?
  case none =>
    have hn (i : Int64) : (i.toInt : ℚ) ≠ q := by
      intro hi
      rw [(he i).mpr hi, Option.bind_some, Value.ofInt?_toInt] at hv
      contradiction
    rw [Value.ofFinite, if_pos (hf hn)]
    exact .double _ hn (hf hn)
  case some v =>
    obtain ⟨k, hk, hv⟩ := Option.bind_eq_some_iff.mp hv
    rcases Value.ofInt?_cases k with ⟨i, rfl, hi⟩ | ⟨hn, _⟩
    case inl =>
      obtain rfl : Value.int i = v := Option.some.inj (hi.symm.trans hv)
      rw [← (he i).mp hk]
      exact .int i
    case inr => simp [hn] at hv

theorem exactQuotient?_eq_some_iff {k : Int} (hj : j ≠ 0) :
    exactQuotient? i j = some k ↔ (k : ℚ) = (i : ℚ) / (j : ℚ) := by
  have hq : (j : ℚ) ≠ 0 := Int.cast_ne_zero.mpr hj
  rw [eq_div_iff hq, ← Int.cast_mul, Int.cast_inj, exactQuotient?]
  split
  case isTrue hd =>
    rw [Option.some.injEq, Int.ediv_eq_iff_eq_mul_left hj hd]
    exact eq_comm
  case isFalse hd =>
    refine iff_of_false (Option.some_ne_none k).symm fun hk => hd ⟨k, ?_⟩
    rw [← hk, Int.mul_comm]

-- The quotient of the least integer by `-1` is the only one that is too great.
theorem fits_tdiv (hb : b.toInt ≠ 0) (hn : ¬(a = Int64.minValue ∧ b = -1)) :
    (Value.ofInt? (a.toInt.tdiv b.toInt)).isSome := by
  obtain ⟨hl, hu⟩ := Value.toInt_bounds a
  suffices hf : -9223372036854775808 ≤ a.toInt.tdiv b.toInt ∧
      a.toInt.tdiv b.toInt < 9223372036854775808 by
    rw [Value.ofInt?, if_pos (Value.fits_iff.mpr hf)]
    rfl
  by_cases h1 : b.toInt.natAbs = 1
  case pos =>
    rcases (show b.toInt = 1 ∨ b.toInt = -1 by omega) with h1 | h1
    case inl =>
      rw [h1, Int.tdiv_one]
      exact ⟨hl, hu⟩
    case inr =>
      have ha : a.toInt ≠ -9223372036854775808 := fun ha =>
        hn ⟨Int64.toInt_inj.mp ha, Int64.toInt_inj.mp h1⟩
      rw [h1, Int.tdiv_neg, Int.tdiv_one]
      omega
  case neg =>
    -- at most the half is left
    have hq : (a.toInt.tdiv b.toInt).natAbs ≤ a.toInt.natAbs / 2 :=
      Int.natAbs_tdiv a.toInt b.toInt ▸ Nat.div_le_div_left (by omega) Nat.two_pos
    omega

theorem exists_toInt_tmod (hb : b.toInt ≠ 0) : ∃ i : Int64, i.toInt = a.toInt.tmod b.toInt := by
  have hl := Value.toInt_bounds b
  have hm := Nat.mod_lt a.toInt.natAbs (Int.natAbs_pos.mpr hb)
  rw [← Int.natAbs_tmod] at hm
  exact ⟨.ofInt _, Int64.toInt_ofInt_of_le (by omega) (by omega)⟩

theorem exact_apply (ho : op ∈ arithmetical) (hn : ¬(op = rem ∧ a = Int64.minValue ∧ b = -1)) :
    Exact (op.exactResult? a.toInt b.toInt) (op.apply (.int a) (.int b)) := by
  have ha := Value.upTo_ofInt a
  have hb := Value.upTo_ofInt b
  have hz : b.toInt = 0 ↔ b = 0 := Int64.toInt_inj (y := 0)
  have hcast (k : Int) (i : Int64) : some k = some i.toInt ↔ (i.toInt : ℚ) = (k : ℚ) := by
    rw [Int.cast_inj, Option.some.injEq, eq_comm]
  cases op
  case add =>
    simp only [exactResult?, apply]
    exact exact_arithmetic (hcast _) fun _ => (ha.add (by decide) hb).isFinite (by decide)
  case sub =>
    simp only [exactResult?, apply]
    exact exact_arithmetic (hcast _) fun _ => (ha.sub (by decide) hb).isFinite (by decide)
  case mul =>
    simp only [exactResult?, apply]
    exact exact_arithmetic (hcast _) fun _ => (ha.mul (by decide) hb).isFinite (by decide)
  case div =>
    simp only [exactResult?, apply, isZero, hz, decide_eq_true_eq]
    split
    case isTrue => exact .null
    case isFalse h0 =>
      have hj := mt hz.mp h0
      refine exact_arithmetic (fun i => exactQuotient?_eq_some_iff hj) fun _ => ?_
      exact (ha.div (by decide) hb (Binary64.fromOne_ofInt hj)).isFinite (by decide)
  case rem =>
    simp only [exactResult?, apply, isZero, hz, decide_eq_true_eq]
    split
    case isTrue => exact .null
    case isFalse h0 =>
      have hr : exactRemainder? a.toInt b.toInt = some (a.toInt.tmod b.toInt) :=
        if_pos (fits_tdiv (mt hz.mp h0) fun h => hn ⟨rfl, h⟩)
      refine exact_arithmetic (fun i => hr ▸ hcast _ i) fun hn => ?_
      obtain ⟨i, hi⟩ := exists_toInt_tmod (mt hz.mp h0)
      exact absurd (congrArg _ hi) (hn i)
  all_goals simp [arithmetical] at ho

end BinaryOp

theorem exists_toInt_neg (ha : a ≠ Int64.minValue) : ∃ i : Int64, i.toInt = -a.toInt := by
  have hb := Value.toInt_bounds a
  have ha : a.toInt ≠ -9223372036854775808 := mt (Int64.toInt_inj (y := Int64.minValue)).mp ha
  exact ⟨.ofInt _, Int64.toInt_ofInt_of_le (by omega) (by omega)⟩

theorem exact_neg_iff : Exact (some ((-a.toInt : Int) : ℚ)) (UnaryOp.neg.apply (.int a)) ↔
    a ≠ Int64.minValue := by
  constructor
  case mp =>
    rintro h rfl
    exact h.ne_null rfl
  case mpr =>
    intro ha
    obtain ⟨i, hi⟩ := exists_toInt_neg ha
    rw [UnaryOp.apply, ← hi, Value.ofInt?_toInt]
    exact .int i

theorem neg_eq_sub_iff : UnaryOp.neg.apply (.int a) = BinaryOp.sub.apply (.int 0) (.int a) ↔
    a ≠ Int64.minValue := by
  have ho : BinaryOp.sub ∈ BinaryOp.arithmetical := by decide
  have hn := BinaryOp.exact_apply (a := 0) (b := a) ho (by simp)
  have hs : Exact (some ((-a.toInt : Int) : ℚ)) (BinaryOp.sub.apply (.int 0) (.int a)) :=
    Int.zero_sub a.toInt ▸ hn
  rw [← exact_neg_iff]
  constructor
  case mp => exact fun h => h ▸ hs
  case mpr =>
    intro he
    obtain ⟨i, hi⟩ := exists_toInt_neg (exact_neg_iff.mp he)
    rw [← hi] at he hs
    rw [he.eq_int, hs.eq_int]

theorem evaluate_binary {resolve : Resolver} (ho : op ∈ BinaryOp.arithmetical) (left right : Expr) :
    (Expr.binary op left right).evaluate resolve =
      op.apply (left.evaluate resolve) (right.evaluate resolve) := by
  cases op
  case and | or => simp [BinaryOp.arithmetical] at ho
  all_goals rfl

-- Operators on integers yield the exact result wherever it is an integer that fits, and a double where it is
-- not, with two exceptions. The remainder of the least integer by `-1` is left to the doubles, and the
-- opposite of the least integer is null while its difference from zero is a double.
theorem integers_exact_iff {resolve : Resolver} {left right : Expr} (ho : op ∈ BinaryOp.arithmetical)
    (hl : left.evaluate resolve = .int a) (hr : right.evaluate resolve = .int b) :
    (Exact (op.exactResult? a.toInt b.toInt) ((Expr.binary op left right).evaluate resolve) ↔
      ¬(op = .rem ∧ a = Int64.minValue ∧ b = -1)) ∧
    (Exact (some ((-a.toInt : Int) : ℚ)) ((Expr.unary .neg left).evaluate resolve) ↔
      a ≠ Int64.minValue) ∧
    ((Expr.unary .neg left).evaluate resolve =
        (Expr.binary .sub (.literal (.int 0)) left).evaluate resolve ↔ a ≠ Int64.minValue) ∧
    (op = .rem → a = Int64.minValue → b = -1 →
      (Expr.binary op left right).evaluate resolve = .double (.zero true)) ∧
    (a = Int64.minValue → (Expr.unary .neg left).evaluate resolve = .null) := by
  have hb : (Expr.binary op left right).evaluate resolve = op.apply (.int a) (.int b) := by
    rw [evaluate_binary ho, hl, hr]
  have hn : (Expr.unary .neg left).evaluate resolve = UnaryOp.neg.apply (.int a) := by
    rw [Expr.evaluate, hl]
  have hs : (Expr.binary .sub (.literal (.int 0)) left).evaluate resolve =
      BinaryOp.sub.apply (.int 0) (.int a) := by
    rw [evaluate_binary (by decide), hl, Expr.evaluate]
  rw [hb, hn, hs]
  refine ⟨⟨?exception, BinaryOp.exact_apply ho⟩, exact_neg_iff, neg_eq_sub_iff, ?rem, ?neg⟩
  case exception =>
    rintro h ⟨rfl, rfl, rfl⟩
    -- nothing remains, and the double is a zero with a sign
    have h0 : Value.double (.zero true) = .int 0 := Exact.eq_int h
    contradiction
  case rem =>
    rintro rfl rfl rfl
    rfl
  case neg =>
    rintro rfl
    rfl

def extremes : Resolver := fun id =>
  if id = "least" then some (.int Int64.minValue)
  else if id = "opposite" then some (.int (-1))
  else none

theorem extremes_inexact :
    .rem ∈ BinaryOp.arithmetical ∧
    (Expr.read "least" []).evaluate extremes = .int Int64.minValue ∧
    (Expr.read "opposite" []).evaluate extremes = .int (-1) ∧
    ¬Exact (some ((Int64.minValue.toInt.tmod (Int64.toInt (-1)) : Int) : ℚ))
      ((Expr.binary .rem (.read "least" []) (.read "opposite" [])).evaluate extremes) ∧
    ¬Exact (some ((-Int64.minValue.toInt : Int) : ℚ))
      ((Expr.unary .neg (.read "least" [])).evaluate extremes) ∧
    (Expr.unary .neg (.read "least" [])).evaluate extremes ≠
      (Expr.binary .sub (.literal (.int 0)) (.read "least" [])).evaluate extremes ∧
    (Expr.binary .rem (.read "least" []) (.read "opposite" [])).evaluate extremes =
      .double (.zero true) ∧
    (Expr.unary .neg (.read "least" [])).evaluate extremes = .null := by
  have hl : (Expr.read "least" []).evaluate extremes = .int Int64.minValue := rfl
  have hr : (Expr.read "opposite" []).evaluate extremes = .int (-1) := rfl
  have ho : .rem ∈ BinaryOp.arithmetical := by decide
  obtain ⟨hb, hn, hs, hrem, hneg⟩ := integers_exact_iff ho hl hr
  exact ⟨ho, hl, hr, fun h => hb.mp h ⟨rfl, rfl, rfl⟩, fun h => hn.mp h rfl, fun h => hs.mp h rfl,
    hrem rfl rfl rfl, hneg rfl⟩

theorem exists_inexact_integers :
    (¬∀ op a b, op ∈ BinaryOp.arithmetical →
      Exact (op.exactResult? a.toInt b.toInt) (op.apply (.int a) (.int b))) ∧
    (¬∀ a : Int64, Exact (some ((-a.toInt : Int) : ℚ)) (UnaryOp.neg.apply (.int a))) ∧
    ¬∀ a : Int64, UnaryOp.neg.apply (.int a) = BinaryOp.sub.apply (.int 0) (.int a) := by
  refine ⟨fun h => ?_, fun h => ?_, fun h => ?_⟩
  case refine_1 =>
    have h0 : Value.double (.zero true) = .int 0 :=
      Exact.eq_int (h .rem Int64.minValue (-1) (by decide))
    contradiction
  case refine_2 => exact exact_neg_iff.mp (h Int64.minValue) rfl
  case refine_3 => exact neg_eq_sub_iff.mp (h Int64.minValue) rfl

end BindingEngine
