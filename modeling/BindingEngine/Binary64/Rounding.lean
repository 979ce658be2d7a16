import BindingEngine.Binary64.Basic

namespace BindingEngine.Binary64

-- The quotient of `n` by `d` to the nearest integer, a half to the even one.
def roundDiv (n d : Nat) : Nat :=
  let q := n / d
  let r := n % d
  if 2 * r < d then q
  else if d < 2 * r then q + 1
  else q + q % 2

-- The exponent `e` with `2 ^ e ≤ n / d < 2 ^ (e + 1)`.
def log2Div (n d : Nat) : Int :=
  let e : Int := n.log2 - d.log2
  if n * Nat.pow 2 (-e).toNat < d * Nat.pow 2 e.toNat then e - 1 else e

def round (negative : Bool) (n d : Nat) : Binary64 :=
  if n = 0 then zero negative
  else
    let scale := max (log2Div n d - 52) (-1074)
    let significand := roundDiv (n * Nat.pow 2 (-scale).toNat) (d * Nat.pow 2 scale.toNat)
    let magnitude := (scale + 1074).toNat * Nat.pow 2 52 + significand
    ofMagnitude negative (min magnitude infinityMagnitude)

def roundScaled (negative : Bool) (n : Nat) (e : Int) : Binary64 :=
  round negative (n * Nat.pow 2 e.toNat) (Nat.pow 2 (-e).toNat)

def ofInt (i : Int) : Binary64 := round (i < 0) i.natAbs 1

-- The number nearest to `n * 10 ^ e`. Beyond the exponents cut off here every number is infinite or
-- zero, however many digits `n` has.
def ofDecimal (negative : Bool) (n : Nat) (e : Int) : Binary64 :=
  if n = 0 then zero negative
  else if 310 < e then infinity negative
  else if e + (n.log2 : Int) < -1100 then zero negative
  else round negative (n * Nat.pow 10 e.toNat) (Nat.pow 10 (-e).toNat)

end BindingEngine.Binary64
