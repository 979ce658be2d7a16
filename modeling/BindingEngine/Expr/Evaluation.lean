import BindingEngine.Binary64.Arithmetic
import BindingEngine.Expr.Basic
import BindingEngine.Value.Equality

namespace BindingEngine

abbrev Resolver := String → Option Value

namespace Value

def ofFinite (x : Binary64) : Value := if x.isFinite then double x else null

def ofOption (v : Option Value) : Value := v.getD null

def segment? : Value → Option Segment
  | int i => if i.toInt < 0 then none else some (.index i.toUInt64)
  | string key => some (.key key)
  | _ => none

end Value

namespace UnaryOp

def apply : UnaryOp → Value → Value
  | not, .bool b => .bool !b
  | neg, .int i => .ofOption (Value.ofInt? (-i.toInt))
  | neg, .double x => .double x.neg
  | _, _ => .null

end UnaryOp

namespace BinaryOp

-- Equality of an expression. Null can be compared with everything, numbers with numbers, and other
-- values with those of their kind.
def equality? (a b : Value) : Option Bool :=
  match a, b with
  | .null, b => some b.isNull
  | a, .null => some a.isNull
  | .int a, .int b => some (a = b)
  | a, b =>
    match a.number?, b.number? with
    | some x, some y => some (x.equals y)
    | _, _ => if a.kind = b.kind then some (a.equals b) else none

def order? : Value → Value → Option Ordering
  | .int a, .int b => some (compare a.toInt b.toInt)
  | .string a, .string b => some (compare a b)
  | a, b =>
    match a.number?, b.number? with
    | some x, some y => x.compare? y
    | _, _ => none

-- An operation on numbers: exact on integers where its result is an integer that fits, else on
-- doubles.
def arithmetic (exact : Int → Int → Option Int) (inexact : Binary64 → Binary64 → Binary64)
    (a b : Value) : Value :=
  let integer := match a, b with
    | .int i, .int j => (exact i.toInt j.toInt).bind Value.ofInt?
    | _, _ => none
  match integer with
  | some v => v
  | none =>
    match a.number?, b.number? with
    | some x, some y => .ofFinite (inexact x y)
    | _, _ => .null

def isZero : Value → Bool
  | .int i => i = 0
  | _ => false

def exactQuotient? (i j : Int) : Option Int :=
  if j ∣ i then some (i / j) else none

-- The remainder of two integers, with the sign of the dividend. It is left to the doubles where the
-- quotient does not fit.
def exactRemainder? (i j : Int) : Option Int :=
  if (Value.ofInt? (i.tdiv j)).isSome then some (i.tmod j) else none

def apply (op : BinaryOp) (a b : Value) : Value :=
  let ofBool? (b : Option Bool) : Value := .ofOption (b.map .bool)
  match op with
  | eq => ofBool? (equality? a b)
  | ne => ofBool? ((equality? a b).map (!·))
  | lt => ofBool? ((order? a b).map (·.isLT))
  | le => ofBool? ((order? a b).map (·.isLE))
  | gt => ofBool? ((order? a b).map (·.isGT))
  | ge => ofBool? ((order? a b).map (·.isGE))
  | add =>
    match a, b with
    | .string s, .string t => .string (s ++ t)
    | a, b => arithmetic (fun i j => some (i + j)) .add a b
  | sub => arithmetic (fun i j => some (i - j)) .sub a b
  | mul => arithmetic (fun i j => some (i * j)) .mul a b
  | div => if isZero b then .null else arithmetic exactQuotient? .div a b
  | rem => if isZero b then .null else arithmetic exactRemainder? .rem a b
  | and | or => .null

end BinaryOp

namespace Expr

mutual

def evaluate (resolve : Resolver) : Expr → Value
  | literal v => v
  | read context steps =>
    match resolve context with
    | none => .null
    | some v => .ofOption (follow? resolve steps v)
  | unary op operand => op.apply (operand.evaluate resolve)
  | binary .and left right =>
    match left.evaluate resolve with
    | .bool false => .bool false
    | .bool true =>
      match right.evaluate resolve with
      | .bool b => .bool b
      | _ => .null
    | _ => .null
  | binary .or left right =>
    match left.evaluate resolve with
    | .bool true => .bool true
    | .bool false =>
      match right.evaluate resolve with
      | .bool b => .bool b
      | _ => .null
    | _ => .null
  | binary op left right => op.apply (left.evaluate resolve) (right.evaluate resolve)
  | conditional condition whenTrue whenFalse =>
    match condition.evaluate resolve with
    | .bool true => whenTrue.evaluate resolve
    | .bool false => whenFalse.evaluate resolve
    | _ => .null

def follow? (resolve : Resolver) : List Accessor → Value → Option Value
  | [], v => some v
  | .static s :: rest, v => (v.step? s).bind (follow? resolve rest)
  | .computed e :: rest, v =>
    match (e.evaluate resolve).segment? with
    | none => none
    | some s => (v.step? s).bind (follow? resolve rest)

end

mutual

-- The contexts that evaluation asks for and that do not answer, in order.
def misses (resolve : Resolver) : Expr → List String
  | literal _ => []
  | read context steps =>
    match resolve context with
    | none => [context]
    | some v => accessorMisses resolve steps v
  | unary _ operand => operand.misses resolve
  | binary op left right =>
    let decided := match op, left.evaluate resolve with
      | .and, .bool true => false
      | .or, .bool false => false
      | .and, _ => true
      | .or, _ => true
      | _, _ => false
    left.misses resolve ++ if decided then [] else right.misses resolve
  | conditional condition whenTrue whenFalse =>
    condition.misses resolve ++
      match condition.evaluate resolve with
      | .bool true => whenTrue.misses resolve
      | .bool false => whenFalse.misses resolve
      | _ => []

def accessorMisses (resolve : Resolver) : List Accessor → Value → List String
  | [], _ => []
  | .static s :: rest, v =>
    match v.step? s with
    | none => []
    | some v => accessorMisses resolve rest v
  | .computed e :: rest, v =>
    e.misses resolve ++
      match (e.evaluate resolve).segment?.bind v.step? with
      | none => []
      | some v => accessorMisses resolve rest v

end

end Expr

end BindingEngine
