import BindingEngine.Binary64.Rounding

namespace BindingEngine.Binary64

variable {negative : Bool} {n d a b i i' j j' k m : Nat} {e : Int} {x : Binary64}

def UpTo (k : Nat) (x : Binary64) : Prop := x.magnitude ≤ (k + 1023) * Nat.pow 2 52

def FromOne (x : Binary64) : Prop := 1023 * Nat.pow 2 52 ≤ x.magnitude

theorem UpTo.isFinite (h : x.UpTo k) (hk : k < 1024) : x.isFinite := by
  have hm : x.magnitude < infinityMagnitude := by
    simp only [UpTo, infinityMagnitude, Nat.pow_eq] at *
    omega
  exact decide_eq_true hm

theorem magnitude_ofMagnitude (h : m < Nat.pow 2 63) : (ofMagnitude negative m).magnitude = m := by
  simp only [Nat.pow_eq] at h
  simp only [ofMagnitude, magnitude, Nat.toUInt64_eq, UInt64.toNat_ofNat', Nat.pow_eq]
  cases negative <;> simp <;> omega

section Quotient

theorem two_pow_pos (k : Nat) : 0 < Nat.pow 2 k :=
  Nat.two_pow_pos k

theorem two_pow_add (j k : Nat) : Nat.pow 2 (j + k) = Nat.pow 2 j * Nat.pow 2 k :=
  Nat.pow_add 2 j k

theorem mul_pow_lt_mul_pow (hn : n < Nat.pow 2 a) (hd : Nat.pow 2 b ≤ d) (h : a + i ≤ b + j) :
    n * Nat.pow 2 i < d * Nat.pow 2 j := by
  simp only [Nat.pow_eq] at *
  calc n * 2 ^ i < 2 ^ a * 2 ^ i := Nat.mul_lt_mul_of_pos_right hn (Nat.two_pow_pos i)
    _ = 2 ^ (a + i) := (Nat.pow_add 2 a i).symm
    _ ≤ 2 ^ (b + j) := Nat.pow_le_pow_right Nat.two_pos h
    _ = 2 ^ b * 2 ^ j := Nat.pow_add 2 b j
    _ ≤ d * 2 ^ j := Nat.mul_le_mul_right _ hd

theorem mul_pow_le_of_mul_pow_le (h : d * Nat.pow 2 j ≤ n * Nat.pow 2 i) (hj : j' + i ≤ j + i') :
    d * Nat.pow 2 j' ≤ n * Nat.pow 2 i' := by
  simp only [Nat.pow_eq] at *
  refine Nat.le_of_mul_le_mul_right ?_ (Nat.two_pow_pos i)
  calc d * 2 ^ j' * 2 ^ i = d * 2 ^ (j' + i) := by rw [Nat.mul_assoc, Nat.pow_add]
    _ ≤ d * 2 ^ (j + i') := Nat.mul_le_mul_left d (Nat.pow_le_pow_right Nat.two_pos hj)
    _ = d * 2 ^ j * 2 ^ i' := by rw [Nat.mul_assoc, Nat.pow_add]
    _ ≤ n * 2 ^ i * 2 ^ i' := Nat.mul_le_mul_right _ h
    _ = n * 2 ^ i' * 2 ^ i := Nat.mul_right_comm _ _ _

theorem log2Div_spec (hn : n ≠ 0) (hd : d ≠ 0) :
    d * Nat.pow 2 (log2Div n d).toNat ≤ n * Nat.pow 2 (-log2Div n d).toNat ∧
      n * Nat.pow 2 (-(log2Div n d + 1)).toNat < d * Nat.pow 2 (log2Div n d + 1).toNat := by
  have hn₁ : Nat.pow 2 n.log2 ≤ n := Nat.log2_self_le hn
  have hn₂ : n < Nat.pow 2 (n.log2 + 1) := Nat.lt_log2_self
  have hd₁ : Nat.pow 2 d.log2 ≤ d := Nat.log2_self_le hd
  have hd₂ : d < Nat.pow 2 (d.log2 + 1) := Nat.lt_log2_self
  unfold log2Div
  simp only
  split
  case isTrue h =>
    refine ⟨Nat.le_of_lt (mul_pow_lt_mul_pow hd₂ hn₁ (by omega)), ?_⟩
    rwa [Int.sub_add_cancel]
  case isFalse h => exact ⟨Nat.le_of_not_lt h, mul_pow_lt_mul_pow hn₂ hd₁ (by omega)⟩

theorem roundDiv_bounds (n d : Nat) : n / d ≤ roundDiv n d ∧ roundDiv n d ≤ n / d + 1 := by
  unfold roundDiv
  simp only
  split
  case isTrue => omega
  case isFalse => split <;> omega

section Exponent

variable (hn : n ≠ 0) (hd : d ≠ 0)

include hn hd

theorem lt_of_log2Div_lt (h : log2Div n d < k) : n < d * Nat.pow 2 k := by
  refine Nat.not_le.mp fun hk => Nat.not_le_of_lt (log2Div_spec hn hd).2 ?_
  have hk : d * Nat.pow 2 k ≤ n * Nat.pow 2 0 := Nat.le_trans hk (Nat.le_of_eq (Nat.mul_one n).symm)
  exact mul_pow_le_of_mul_pow_le hk (by omega)

theorem le_of_le_log2Div (h : k ≤ log2Div n d) : d * Nat.pow 2 k ≤ n := by
  have hk : d * Nat.pow 2 k ≤ n * Nat.pow 2 0 :=
    mul_pow_le_of_mul_pow_le (log2Div_spec hn hd).1 (by omega)
  exact Nat.le_trans hk (Nat.le_of_eq (Nat.mul_one n))

theorem le_significand {s : Int} (h : s + 52 ≤ log2Div n d) :
    Nat.pow 2 52 ≤ roundDiv (n * Nat.pow 2 (-s).toNat) (d * Nat.pow 2 s.toNat) := by
  refine Nat.le_trans ?_ (roundDiv_bounds _ _).1
  have hp : 0 < d * Nat.pow 2 s.toNat := Nat.mul_pos (Nat.pos_of_ne_zero hd) (two_pow_pos _)
  rw [Nat.le_div_iff_mul_le hp, Nat.mul_comm, Nat.mul_assoc, ← two_pow_add]
  exact mul_pow_le_of_mul_pow_le (log2Div_spec hn hd).1 (by omega)

end Exponent

end Quotient

section Round

theorem magnitude_round (negative : Bool) (hn : n ≠ 0) :
    (round negative n d).magnitude =
      min ((max (log2Div n d - 52) (-1074) + 1074).toNat * Nat.pow 2 52 +
        roundDiv (n * Nat.pow 2 (-max (log2Div n d - 52) (-1074)).toNat)
          (d * Nat.pow 2 (max (log2Div n d - 52) (-1074)).toNat)) infinityMagnitude := by
  rw [round, if_neg hn]
  exact magnitude_ofMagnitude (Nat.lt_of_le_of_lt (Nat.min_le_right _ _) (by decide))

theorem magnitude_zero (negative : Bool) : (zero negative).magnitude = 0 :=
  magnitude_ofMagnitude (by decide)

theorem upTo_round (hd : d ≠ 0) (h : n < d * Nat.pow 2 k) : UpTo k (round negative n d) := by
  by_cases hn : n = 0
  case pos =>
    rw [round, if_pos hn, UpTo, magnitude_zero]
    exact Nat.zero_le _
  case neg =>
    obtain ⟨-, h₂⟩ := log2Div_spec hn hd
    have hl : log2Div n d < k :=
      Int.not_le.mp fun hk => Nat.not_le_of_lt h (le_of_le_log2Div hn hd hk)
    rw [UpTo, magnitude_round negative hn]
    generalize log2Div n d = l at *
    generalize hs : max (l - 52) (-1074) = s
    have hq : n * Nat.pow 2 (-s).toNat / (d * Nat.pow 2 s.toNat) < Nat.pow 2 53 := by
      refine Nat.div_lt_of_lt_mul (Nat.not_le.mp fun hq => Nat.not_le_of_lt h₂ ?_)
      rw [Nat.mul_assoc] at hq
      rw [← two_pow_add] at hq
      exact mul_pow_le_of_mul_pow_le hq (by omega)
    have hr := (roundDiv_bounds (n * Nat.pow 2 (-s).toNat) (d * Nat.pow 2 s.toNat)).2
    have hp : Nat.pow 2 53 = 2 * Nat.pow 2 52 := rfl
    generalize Nat.pow 2 52 = p at *
    have hm : (s + 1074).toNat * p ≤ (k + 1021) * p := Nat.mul_le_mul_right p (by omega)
    have hk : (k + 1023) * p = (k + 1021) * p + 2 * p := by rw [← Nat.add_mul]
    omega

theorem fromOne_round (hd : d ≠ 0) (h : d ≤ n) : FromOne (round negative n d) := by
  have hn : n ≠ 0 := by omega
  have hl : 0 ≤ log2Div n d := Int.not_lt.mp fun hl => by
    have hn : n < d * Nat.pow 2 0 := lt_of_log2Div_lt hn hd hl
    rw [show Nat.pow 2 0 = 1 from rfl, Nat.mul_one] at hn
    exact Nat.not_le_of_lt hn h
  rw [FromOne, magnitude_round negative hn, infinityMagnitude]
  generalize hs : max (log2Div n d - 52) (-1074) = s
  have hq := le_significand hn hd (s := s) (by omega)
  generalize roundDiv _ _ = q at *
  generalize Nat.pow 2 52 = p at *
  have hm : 1022 * p ≤ (s + 1074).toNat * p := Nat.mul_le_mul_right p (by omega)
  omega

theorem upTo_roundScaled (he : e ≤ k) (hn : n < Nat.pow 2 (k - e).toNat) :
    UpTo k (roundScaled negative n e) := by
  refine upTo_round (Nat.ne_of_gt (Nat.two_pow_pos _)) ?_
  calc n * Nat.pow 2 e.toNat < 1 * Nat.pow 2 ((k - e).toNat + e.toNat) :=
        mul_pow_lt_mul_pow hn (show Nat.pow 2 0 ≤ 1 from Nat.le_refl 1) (by omega)
    _ = Nat.pow 2 (-e).toNat * Nat.pow 2 k := by
        simp only [Nat.pow_eq, ← Nat.pow_add]
        rw [Nat.one_mul]
        congr 1
        omega

end Round

end BindingEngine.Binary64
