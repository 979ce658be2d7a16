import BindingEngine.Binary64.Arithmetic
import BindingEngine.Proofs.Binary64.Rounding

namespace BindingEngine.Binary64

variable {x y : Binary64} {j k : Nat} {e : Int}

theorem magnitude_lt (x : Binary64) : x.magnitude < Nat.pow 2 63 :=
  Nat.mod_lt _ (Nat.two_pow_pos 63)

theorem significand_lt (x : Binary64) : x.significand < Nat.pow 2 53 := by
  have hf : x.fraction < Nat.pow 2 52 := Nat.mod_lt _ (Nat.two_pow_pos 52)
  have hp : Nat.pow 2 53 = 2 * Nat.pow 2 52 := rfl
  unfold significand
  split <;> omega

theorem not_isNaN_of_isFinite (h : x.isFinite) : x.isNaN = false := by
  have hm : x.magnitude < infinityMagnitude := of_decide_eq_true h
  exact decide_eq_false (Nat.not_lt_of_lt hm)

theorem not_isInfinite_of_isFinite (h : x.isFinite) : x.isInfinite = false := by
  have hm : x.magnitude < infinityMagnitude := of_decide_eq_true h
  exact decide_eq_false (Nat.ne_of_lt hm)

theorem upTo_zero (negative : Bool) (k : Nat) : UpTo k (zero negative) := by
  rw [UpTo, magnitude_zero]
  exact Nat.zero_le _

namespace UpTo

theorem scale_le (h : x.UpTo k) : x.scale ≤ k - 52 := by
  have he : x.exponent ≤ k + 1023 := Nat.div_le_of_le_mul ((Nat.mul_comm _ _).symm ▸ h)
  unfold scale
  omega

theorem neg (h : x.UpTo k) : x.neg.UpTo k := by
  rw [UpTo, Binary64.neg, magnitude_ofMagnitude x.magnitude_lt]
  exact h

theorem natAbs_signedAt (h : x.UpTo k) (he : e ≤ x.scale) :
    (x.signedAt e).natAbs < Nat.pow 2 (k + 1 - e).toNat := by
  have hs := h.scale_le
  have hn : (x.signedAt e).natAbs = x.significand * Nat.pow 2 (x.scale - e).toNat := by
    unfold signedAt
    split <;> simp only [Int.natAbs_neg, Int.natAbs_natCast]
  have hl := mul_pow_lt_mul_pow (i := (x.scale - e).toNat) (j := (k + 1 - e).toNat)
    x.significand_lt (show Nat.pow 2 0 ≤ 1 from Nat.le_refl 1) (by omega)
  rw [Nat.one_mul] at hl
  rwa [hn]

variable (hk : k < 1024)

include hk

theorem add (hx : x.UpTo k) (hy : y.UpTo k) : (x.add y).UpTo (k + 2) := by
  have hx' := hx.isFinite hk
  have hy' := hy.isFinite hk
  have hs := hx.scale_le
  simp only [Binary64.add, not_isNaN_of_isFinite, not_isInfinite_of_isFinite, hx', hy',
    Bool.or_self, Bool.false_eq_true, ↓reduceIte]
  generalize he : min x.scale y.scale = e
  split
  case isTrue => exact upTo_zero _ _
  case isFalse =>
    refine upTo_roundScaled (by omega) ?_
    have hx := hx.natAbs_signedAt (e := e) (by omega)
    have hy := hy.natAbs_signedAt (e := e) (by omega)
    have hp : Nat.pow 2 (((k + 2 : Nat) : Int) - e).toNat = 2 * Nat.pow 2 (k + 1 - e).toNat := by
      rw [show (((k + 2 : Nat) : Int) - e).toNat = (k + 1 - e).toNat + 1 by omega]
      exact Nat.pow_succ'
    omega

theorem sub (hx : x.UpTo k) (hy : y.UpTo k) : (x.sub y).UpTo (k + 2) :=
  hx.add hk hy.neg

theorem mul (hx : x.UpTo k) (hy : y.UpTo k) : (x.mul y).UpTo (2 * k + 2) := by
  have hx' := hx.isFinite hk
  have hy' := hy.isFinite hk
  have hs := hx.scale_le
  have hs' := hy.scale_le
  simp only [Binary64.mul, not_isNaN_of_isFinite, not_isInfinite_of_isFinite, hx', hy',
    Bool.or_self, Bool.false_eq_true, ↓reduceIte]
  refine upTo_roundScaled (by omega) ?_
  calc x.significand * y.significand < Nat.pow 2 53 * Nat.pow 2 53 :=
        Nat.mul_lt_mul'' x.significand_lt y.significand_lt
    _ = Nat.pow 2 106 := (Nat.pow_add 2 53 53).symm
    _ ≤ _ := Nat.pow_le_pow_right Nat.two_pos (by omega)

theorem div (hx : x.UpTo k) (hy : y.UpTo k) (hy₁ : y.FromOne) : (x.div y).UpTo (k + 1) := by
  have hx' := hx.isFinite hk
  have hy' := hy.isFinite hk
  have hs := hx.scale_le
  have he : 1023 ≤ y.exponent := (Nat.le_div_iff_mul_le (Nat.two_pow_pos 52)).mpr hy₁
  have hs' : -52 ≤ y.scale := by unfold scale; omega
  have hm : y.magnitude ≠ 0 := fun hm => by simp [FromOne, hm] at hy₁
  have hn : Nat.pow 2 52 ≤ y.significand := by
    rw [significand, if_neg (by omega)]
    exact Nat.le_add_left _ _
  simp only [Binary64.div, not_isNaN_of_isFinite, not_isInfinite_of_isFinite, hx', hy', hm,
    Bool.or_self, Bool.false_eq_true, ↓reduceIte]
  refine upTo_round (Nat.ne_of_gt (Nat.mul_pos ?_ (Nat.two_pow_pos _))) ?_
  case refine_1 => exact Nat.lt_of_lt_of_le (Nat.two_pow_pos 52) hn
  case refine_2 =>
    rw [Nat.mul_assoc]
    refine Nat.lt_of_lt_of_eq (mul_pow_lt_mul_pow (j := (-(x.scale - y.scale)).toNat + (k + 1))
      x.significand_lt hn (by omega)) (congrArg _ (Nat.pow_add 2 _ _))

end UpTo

section Integers

variable {i : Int}

theorem upTo_ofInt (h : i.natAbs < Nat.pow 2 k) : UpTo k (ofInt i) :=
  upTo_round Nat.one_ne_zero ((Nat.one_mul _).symm ▸ h)

theorem fromOne_ofInt (h : i ≠ 0) : FromOne (ofInt i) :=
  fromOne_round Nat.one_ne_zero (Nat.pos_of_ne_zero (Int.natAbs_ne_zero.mpr h))

end Integers

end BindingEngine.Binary64
