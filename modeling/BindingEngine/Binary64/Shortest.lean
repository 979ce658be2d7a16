import BindingEngine.Binary64.Basic

namespace BindingEngine

structure Decimal where
  digits : Nat
  exponent : Int
deriving DecidableEq

inductive Tie | even | up
deriving DecidableEq

namespace Decimal

def normalize (d : Decimal) : Decimal := go d.digits d
where
  go : Nat → Decimal → Decimal
    | 0, d => d
    | fuel + 1, d =>
      if d.digits ≠ 0 ∧ d.digits % 10 = 0 then go fuel ⟨d.digits / 10, d.exponent + 1⟩ else d

end Decimal

namespace Binary64

-- The reals that round to a number, as the multiples of `2 ^ scale / 4` between two bounds, which
-- belong to them if `closed`.
structure Interval where
  lower : Nat
  center : Nat
  upper : Nat
  closed : Bool

def interval (x : Binary64) : Interval :=
  let n := 4 * x.significand
  -- below a power of two the numbers are twice as dense
  let below := if x.fraction = 0 ∧ 1 < x.exponent then 1 else 2
  ⟨n - below, n, n + 2, x.significand % 2 = 0⟩

def digitCount (n : Nat) : Nat := (Nat.toDigits 10 n).length

def log10Div (n d : Nat) : Int :=
  if d ≤ n then digitCount (n / d) - 1 else -digitCount ((d - 1) / n)

-- The decimal with the given exponent that is in the interval and nearest to its center.
def nearestAt? (i : Interval) (scale : Int) (tie : Tie) (exponent : Int) : Option Decimal :=
  -- in units of 10 ^ exponent the bounds are lower * n / d, center * n / d and upper * n / d
  let n := Nat.pow 2 (scale - 2).toNat * Nat.pow 10 (-exponent).toNat
  let d := Nat.pow 2 (2 - scale).toNat * Nat.pow 10 exponent.toNat
  let inside (k : Nat) : Bool :=
    if i.closed then i.lower * n ≤ k * d && k * d ≤ i.upper * n
    else i.lower * n < k * d && k * d < i.upper * n
  let floor := i.center * n / d
  let rest := i.center * n % d
  let up := d < 2 * rest || (d = 2 * rest && (tie = .up || floor % 2 = 1))
  let first := if up then floor + 1 else floor
  let second := if up then floor else floor + 1
  if inside first && first ≠ 0 then some ⟨first, exponent⟩
  else if inside second && second ≠ 0 then some ⟨second, exponent⟩
  else none

def shortest (tie : Tie) (x : Binary64) : Decimal :=
  let i := x.interval
  let top := log10Div (x.significand * Nat.pow 2 x.scale.toNat) (Nat.pow 2 (-x.scale).toNat)
  let found := (List.range 17).findSome? fun (k : Nat) => nearestAt? i x.scale tie (top - k)
  (found.getD ⟨0, 0⟩).normalize

end Binary64

end BindingEngine
