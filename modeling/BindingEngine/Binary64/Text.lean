import BindingEngine.Binary64.Shortest

namespace BindingEngine

namespace Decimal

-- The decimal with its point in place and without an exponent: `5`, `0.25`, `1200`.
def positional (d : Decimal) : String :=
  let text := Nat.toDigits 10 d.digits
  let point : Int := text.length + d.exponent
  if 0 ≤ d.exponent then String.ofList (text ++ List.replicate d.exponent.toNat '0')
  else if 0 < point then
    String.ofList (text.take point.toNat ++ '.' :: text.drop point.toNat)
  else "0." ++ String.ofList (List.replicate (-point).toNat '0' ++ text)

def scientific (d : Decimal) : String :=
  let text := Nat.toDigits 10 d.digits
  let exponent : Int := text.length - 1 + d.exponent
  let fraction := text.drop 1
  String.ofList (text.take 1 ++ if fraction.isEmpty then [] else '.' :: fraction)
    ++ "e" ++ (if exponent < 0 then "-" else "+") ++ toString exponent.natAbs

end Decimal

namespace Binary64

def sign (x : Binary64) : String := if x.negative then "-" else ""

-- A number on its own: the shortest digits, no exponent and no fraction that is zero.
def plain (x : Binary64) : String :=
  if x.isNaN then "NaN"
  else if x.isInfinite then x.sign ++ "inf"
  else if x.magnitude = 0 then x.sign ++ "0"
  else x.sign ++ (x.shortest .up).positional

-- A number inside a document: the shortest digits with a fraction or an exponent, which stands from
-- `1e+16` on and below `1e-5`. What is no number is written `null`.
def json (x : Binary64) : String :=
  if !x.isFinite then "null"
  else if x.magnitude = 0 then x.sign ++ "0.0"
  else
    let d := x.shortest .even
    let exponent : Int := digitCount d.digits - 1 + d.exponent
    if exponent < -5 || 16 ≤ exponent then x.sign ++ d.scientific
    else if 0 ≤ d.exponent then x.sign ++ d.positional ++ ".0"
    else x.sign ++ d.positional

end Binary64

end BindingEngine
