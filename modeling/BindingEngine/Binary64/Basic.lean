namespace BindingEngine

structure Binary64 where
  bits : UInt64
deriving DecidableEq, Inhabited

namespace Binary64

def ofMagnitude (negative : Bool) (magnitude : Nat) : Binary64 :=
  ⟨(magnitude + if negative then Nat.pow 2 63 else 0).toUInt64⟩

-- The bits without the sign. They order numbers of one sign by size.
def magnitude (x : Binary64) : Nat := x.bits.toNat % Nat.pow 2 63

def negative (x : Binary64) : Bool := Nat.pow 2 63 ≤ x.bits.toNat

def exponent (x : Binary64) : Nat := x.magnitude / Nat.pow 2 52

def fraction (x : Binary64) : Nat := x.magnitude % Nat.pow 2 52

def infinityMagnitude : Nat := 2047 * Nat.pow 2 52

def infinity (negative : Bool) : Binary64 := ofMagnitude negative infinityMagnitude

def nan : Binary64 := ofMagnitude false (infinityMagnitude + Nat.pow 2 51)

def zero (negative : Bool) : Binary64 := ofMagnitude negative 0

def isFinite (x : Binary64) : Bool := x.magnitude < infinityMagnitude

def isInfinite (x : Binary64) : Bool := x.magnitude = infinityMagnitude

def isNaN (x : Binary64) : Bool := infinityMagnitude < x.magnitude

-- A finite number is `significand * 2 ^ scale`, up to its sign.
def significand (x : Binary64) : Nat :=
  if x.exponent = 0 then x.fraction else x.fraction + Nat.pow 2 52

def scale (x : Binary64) : Int := (max x.exponent 1 : Nat) - 1075

def place (x : Binary64) : Int := if x.negative then -x.magnitude else x.magnitude

def equals (x y : Binary64) : Bool := !x.isNaN && !y.isNaN && x.place = y.place

def compare? (x y : Binary64) : Option Ordering :=
  if x.isNaN || y.isNaN then none else some (compare x.place y.place)

def neg (x : Binary64) : Binary64 := ofMagnitude (!x.negative) x.magnitude

theorem equals_refl {x : Binary64} (h : x.isNaN = false) : x.equals x = true := by
  simp [equals, h]

end Binary64

end BindingEngine
