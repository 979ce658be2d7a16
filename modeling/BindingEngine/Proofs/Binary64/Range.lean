import BindingEngine.Proofs.Binary64.Rounding

namespace BindingEngine.Binary64

variable {negative : Bool} {n d k m : Nat}

-- The greatest finite numbers are multiples of two to this power, which is never computed.
@[irreducible] def unit : Nat := 971

theorem unit_eq : unit = 971 := by
  rw [unit]

-- Twice the number in the middle between the greatest finite one and the next power of two. From there on
-- numbers are rounded to an infinite one.
def range : Nat := (Nat.pow 2 54 - 1) * Nat.pow 2 unit

theorem range_bounds :
    2 * Nat.pow 2 (52 + unit) ≤ range ∧ range ≤ 2 * Nat.pow 2 (53 + unit) := by
  simp only [two_pow_add, ← Nat.mul_assoc]
  exact ⟨Nat.mul_le_mul_right _ (by decide), Nat.mul_le_mul_right _ (by decide)⟩

theorem two_le_range : 2 ≤ range :=
  Nat.le_trans (Nat.mul_le_mul_left 2 (two_pow_pos _)) range_bounds.1

theorem range_le {k : Nat} (hk : 52 + unit ≤ 93 * k) : range ≤ 4 * Nat.pow 10 (28 * k) :=
  have ht : Nat.pow 2 93 ≤ Nat.pow 10 28 := by decide
  calc range ≤ 2 * Nat.pow 2 (53 + unit) := range_bounds.2
    _ = 4 * Nat.pow 2 (52 + unit) := by
      rw [show 53 + unit = 1 + (52 + unit) by omega, two_pow_add 1, ← Nat.mul_assoc]
    _ ≤ 4 * Nat.pow 2 (93 * k) := Nat.mul_le_mul_left 4 (Nat.pow_le_pow_right Nat.two_pos hk)
    _ = 4 * Nat.pow (Nat.pow 2 93) k := congrArg (4 * ·) (Nat.pow_mul 2 93 k)
    _ ≤ 4 * Nat.pow (Nat.pow 10 28) k := Nat.mul_le_mul_left 4 (Nat.pow_le_pow_left ht k)
    _ = 4 * Nat.pow 10 (28 * k) := congrArg (4 * ·) (Nat.pow_mul 10 28 k).symm

theorem isFinite_iff {x : Binary64} : x.isFinite ↔ x.magnitude < infinityMagnitude :=
  decide_eq_true_iff

theorem isFinite_zero (negative : Bool) : (zero negative).isFinite := by
  rw [isFinite_iff, magnitude_zero]
  decide

-- A half goes to the even integer, which is the greater one here.
theorem roundDiv_lt_iff (hd : 0 < d) (hm : m % 2 = 0) (hm₀ : 0 < m) :
    roundDiv n d < m ↔ 2 * n < d * (2 * m - 1) := by
  obtain ⟨hl, hu⟩ := roundDiv_bounds n d
  have hn : 2 * n = d * (2 * (n / d)) + 2 * (n % d) := by
    rw [Nat.mul_left_comm, ← Nat.mul_add, Nat.div_add_mod]
  have hr : n % d < d := Nat.mod_lt n hd
  rcases Nat.lt_trichotomy (n / d + 1) m with hq | hq | hq
  case inl =>
    refine iff_of_true (Nat.lt_of_le_of_lt hu hq) ?_
    calc 2 * n < d * (2 * (n / d)) + 2 * d := by omega
      _ = d * (2 * (n / d + 1)) := by rw [Nat.mul_add 2, Nat.mul_add d, Nat.mul_comm 2 d, Nat.mul_one]
      _ ≤ d * (2 * m - 1) := Nat.mul_le_mul_left d (by omega)
  case inr.inl =>
    have hm' : d * (2 * m - 1) = d * (2 * (n / d)) + d := by
      rw [show 2 * m - 1 = 2 * (n / d) + 1 by omega, Nat.mul_add, Nat.mul_one]
    rw [hm', hn, Nat.add_lt_add_iff_left]
    unfold roundDiv
    simp only
    split
    case isTrue h => omega
    case isFalse h => split <;> omega
  case inr.inr =>
    refine iff_of_false (by omega) (Nat.not_lt.mpr ?_)
    calc d * (2 * m - 1) ≤ d * (2 * (n / d)) := Nat.mul_le_mul_left d (by omega)
      _ ≤ 2 * n := by omega

section Exponent

variable (hn : n ≠ 0) (hd : d ≠ 0)

include hn hd

-- With the greatest exponent it is the significand that tells whether a number is finite.
theorem isFinite_round_of_eq (hl : log2Div n d = 52 + unit) :
    (round negative n d).isFinite ↔ 2 * n < d * range := by
  have hs : max (log2Div n d - 52) (-1074) = unit := by omega
  have hu : ((unit : Int) + 1074).toNat = 2045 := by rw [unit_eq]; rfl
  have hp : 0 < d * Nat.pow 2 unit := Nat.mul_pos (Nat.pos_of_ne_zero hd) (two_pow_pos _)
  have hr : d * range = d * Nat.pow 2 unit * (2 * (2 * Nat.pow 2 52) - 1) := by
    rw [range, Nat.mul_comm (Nat.pow 2 54 - 1), Nat.mul_assoc]
  have hn' : n * Nat.pow 2 (-(unit : Int)).toNat = n := by
    rw [Int.toNat_neg_natCast]
    exact Nat.mul_one n
  rw [isFinite_iff, magnitude_round negative hn, hs, hu, hn', Int.toNat_natCast, hr,
    ← roundDiv_lt_iff hp rfl (by decide), infinityMagnitude]
  generalize roundDiv _ _ = q
  generalize Nat.pow 2 52 = p
  omega

theorem not_isFinite_round (hl : 1024 ≤ log2Div n d) : ¬(round negative n d).isFinite := by
  have hs : max (log2Div n d - 52) (-1074) = log2Div n d - 52 := by omega
  have hq := le_significand hn hd (s := log2Div n d - 52) (by omega)
  rw [isFinite_iff, magnitude_round negative hn, hs, infinityMagnitude, Nat.not_lt]
  generalize roundDiv _ _ = q at *
  generalize Nat.pow 2 52 = p at *
  have hm : 2046 * p ≤ (log2Div n d - 52 + 1074).toNat * p := Nat.mul_le_mul_right p (by omega)
  omega

end Exponent

theorem isFinite_round_iff (hd : d ≠ 0) : (round negative n d).isFinite ↔ 2 * n < d * range := by
  obtain ⟨hr₁, hr₂⟩ := range_bounds
  have hu := unit_eq
  by_cases hn : n = 0
  case pos =>
    have hp : 0 < d * range :=
      Nat.mul_pos (Nat.pos_of_ne_zero hd) (Nat.lt_of_lt_of_le Nat.two_pos two_le_range)
    rw [round, if_pos hn, hn]
    exact iff_of_true (isFinite_zero negative) hp
  case neg =>
    rcases Int.lt_trichotomy (log2Div n d) (52 + unit) with hl | hl | hl
    case inl =>
      have h : n < d * Nat.pow 2 (52 + unit) := lt_of_log2Div_lt hn hd hl
      refine iff_of_true ((upTo_round hd h).isFinite (by omega)) ?_
      calc 2 * n < 2 * (d * Nat.pow 2 (52 + unit)) := Nat.mul_lt_mul_of_pos_left h Nat.two_pos
        _ = d * (2 * Nat.pow 2 (52 + unit)) := Nat.mul_left_comm _ _ _
        _ ≤ d * range := Nat.mul_le_mul_left d hr₁
    case inr.inl => exact isFinite_round_of_eq hn hd hl
    case inr.inr =>
      have h : d * Nat.pow 2 (53 + unit) ≤ n := le_of_le_log2Div hn hd (by omega)
      refine iff_of_false (not_isFinite_round hn hd (by omega)) (Nat.not_lt.mpr ?_)
      calc d * range ≤ d * (2 * Nat.pow 2 (53 + unit)) := Nat.mul_le_mul_left d hr₂
        _ = 2 * (d * Nat.pow 2 (53 + unit)) := Nat.mul_left_comm _ _ _
        _ ≤ 2 * n := Nat.mul_le_mul_left 2 h

theorem isFinite_round_or (negative : Bool) (n d : Nat) :
    (round negative n d).isFinite ∨ round negative n d = infinity negative := by
  unfold round
  split
  case isTrue => exact .inl (isFinite_zero negative)
  case isFalse =>
    simp only
    generalize _ + roundDiv _ _ = m
    by_cases hm : m < infinityMagnitude
    case pos =>
      rw [Nat.min_eq_left (Nat.le_of_lt hm), isFinite_iff,
        magnitude_ofMagnitude (Nat.lt_trans hm (by decide))]
      exact .inl hm
    case neg =>
      rw [Nat.min_eq_right (Nat.not_lt.mp hm)]
      exact .inr rfl

-- A decimal has the digits `n`, and `k` of them stand behind the point.
theorem isFinite_ofDecimal_iff (negative : Bool) (n k : Nat) :
    (ofDecimal negative n (-k)).isFinite ↔ 2 * n < Nat.pow 10 k * range := by
  have hd : 0 < Nat.pow 10 k := Nat.pow_pos (by decide)
  have hk : Nat.pow 10 k * 2 ≤ Nat.pow 10 k * range := Nat.mul_le_mul_left _ two_le_range
  have hz := isFinite_zero negative
  unfold ofDecimal
  split
  case isTrue hn => exact iff_of_true hz (by omega)
  case isFalse hn =>
    rw [if_neg (by omega)]
    split
    case isTrue hl =>
      -- a number below one, with more digits behind the point than bits
      have hp : n < Nat.pow 10 k :=
        calc n < Nat.pow 2 (n.log2 + 1) := Nat.lt_log2_self
          _ ≤ Nat.pow 2 k := Nat.pow_le_pow_right Nat.two_pos (by omega)
          _ ≤ Nat.pow 10 k := Nat.pow_le_pow_left (by decide) k
      exact iff_of_true hz (by omega)
    case isFalse =>
      rw [Int.toNat_neg_natCast, Int.neg_neg, Int.toNat_natCast, isFinite_round_iff (Nat.ne_of_gt hd)]
      exact iff_of_eq (congrArg (2 * · < _) (Nat.mul_one n))

theorem isFinite_or_eq_infinity (negative : Bool) (n : Nat) (e : Int) :
    (ofDecimal negative n e).isFinite ∨ ofDecimal negative n e = infinity negative := by
  unfold ofDecimal
  split
  case isTrue => exact .inl (isFinite_zero negative)
  case isFalse =>
    split
    case isTrue => exact .inr rfl
    case isFalse =>
      split
      case isTrue => exact .inl (isFinite_zero negative)
      case isFalse => exact isFinite_round_or negative _ _

end BindingEngine.Binary64
