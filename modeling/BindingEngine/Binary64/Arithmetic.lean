import BindingEngine.Binary64.Rounding

namespace BindingEngine.Binary64

-- A finite number as an integer multiple of `2 ^ e`, for an `e` not above its scale.
def signedAt (x : Binary64) (e : Int) : Int :=
  let n : Nat := x.significand * Nat.pow 2 (x.scale - e).toNat
  if x.negative then -n else n

def add (x y : Binary64) : Binary64 :=
  if x.isNaN || y.isNaN then nan
  else if x.isInfinite then if y.isInfinite && x.negative != y.negative then nan else x
  else if y.isInfinite then y
  else
    let e := min x.scale y.scale
    let sum := x.signedAt e + y.signedAt e
    if sum = 0 then zero (x.negative && y.negative)
    else roundScaled (sum < 0) sum.natAbs e

def sub (x y : Binary64) : Binary64 := x.add y.neg

def mul (x y : Binary64) : Binary64 :=
  let negative := x.negative != y.negative
  if x.isNaN || y.isNaN then nan
  else if x.isInfinite then if y.magnitude = 0 then nan else infinity negative
  else if y.isInfinite then if x.magnitude = 0 then nan else infinity negative
  else roundScaled negative (x.significand * y.significand) (x.scale + y.scale)

def div (x y : Binary64) : Binary64 :=
  let negative := x.negative != y.negative
  if x.isNaN || y.isNaN then nan
  else if x.isInfinite then if y.isInfinite then nan else infinity negative
  else if y.isInfinite then zero negative
  else if y.magnitude = 0 then if x.magnitude = 0 then nan else infinity negative
  else
    let e := x.scale - y.scale
    round negative (x.significand * Nat.pow 2 e.toNat) (y.significand * Nat.pow 2 (-e).toNat)

-- The remainder of the division that cuts the quotient off towards zero. It has the sign of the
-- dividend.
def rem (x y : Binary64) : Binary64 :=
  if x.isNaN || y.isNaN || x.isInfinite || y.magnitude = 0 then nan
  else if y.isInfinite then x
  else
    let e := min x.scale y.scale
    let n := (x.signedAt e).natAbs % (y.signedAt e).natAbs
    roundScaled x.negative n e

end BindingEngine.Binary64
