import BindingEngine.Expr.Basic
import BindingEngine.Expr.Token

namespace BindingEngine

namespace ParseError

-- A token stands where the binding that begins at `start`, or a group inside it that was opened at
-- `opened`, should be closed.
def unclosed (start : Nat) (opened : Option Nat) : Option Lexeme → ParseError
  | none => unterminated start
  | some l =>
    match l.token, opened with
    | .rightBracket, some offset => unbalancedBrackets offset
    | .rightParen, some offset => unbalancedBrackets offset
    | .closeBrace, some offset => unbalancedBrackets offset
    | .rightBracket, none => unbalancedBrackets l.start
    | .rightParen, none => unbalancedBrackets l.start
    | token, _ => unexpectedToken token l.start

end ParseError

namespace Expr

abbrev Parser := Lexemes → Except ParseError (Expr × Lexemes)

def disjunctionOp? : Token → Option BinaryOp
  | .or => some .or
  | _ => none

def conjunctionOp? : Token → Option BinaryOp
  | .and => some .and
  | _ => none

def equalityOp? : Token → Option BinaryOp
  | .eq => some .eq
  | .ne => some .ne
  | _ => none

def comparisonOp? : Token → Option BinaryOp
  | .lt => some .lt
  | .le => some .le
  | .gt => some .gt
  | .ge => some .ge
  | _ => none

def sumOp? : Token → Option BinaryOp
  | .plus => some .add
  | .minus => some .sub
  | _ => none

def productOp? : Token → Option BinaryOp
  | .star => some .mul
  | .slash => some .div
  | .percent => some .rem
  | _ => none

-- A bracket holds a position, a key, or an expression that yields one of the two.
def accessor (e : Expr) (opened : Nat) : Except ParseError Accessor :=
  match e with
  | literal (.int i) =>
    if i.toInt < 0 then .error (.malformedPath opened .negativeIndex)
    else .ok (.static (.index i.toUInt64))
  | literal (.string key) => .ok (.static (.key key))
  | literal _ => .error (.malformedPath opened .noIndexOrKey)
  | e => .ok (.computed e)

def fieldName? : Token → Option String
  | .identifier name => some name
  | .trueWord => some "true"
  | .falseWord => some "false"
  | .nullWord => some "null"
  | _ => none

def close (start opened : Nat) (token : Token) : Parser → Parser := fun inner ts => do
  let (e, ts) ← inner ts
  match ts with
  | .stuck error => .error error
  | .done _ => .error (.unclosed start (some opened) none)
  | .cons l rest =>
    if l.token = token then .ok (e, rest) else .error (.unclosed start (some opened) (some l))

section

-- `nested offset` reads an expression one level further in, where `offset` is the place to report
-- if there is no room for it
variable (start : Nat) (nested : Nat → Parser)

-- The accessors of a read. Each takes a token at least, so `fuel` is the number of tokens.
def accessors : Nat → Lexemes → Except ParseError (List Accessor × Lexemes)
  | 0, ts => .ok ([], ts)
  | fuel + 1, ts =>
    match ts with
    | .stuck error => .error error
    | .cons ⟨.dot, _, _⟩ (.stuck error) => .error error
    | .cons ⟨.dot, _, _⟩ (.done _) => .error (.unterminated start)
    | .cons ⟨.dot, _, _⟩ (.cons l rest) =>
      match fieldName? l.token with
      | none => .error (.malformedPath l.start .noField)
      | some name => do
        let (more, ts) ← accessors fuel rest
        return (.static (.key name) :: more, ts)
    | .cons ⟨.leftBracket, _, _⟩ (.stuck error) => .error error
    | .cons ⟨.leftBracket, _, _⟩ (.cons ⟨.rightBracket, offset, _⟩ _) =>
      .error (.malformedPath offset .emptyBrackets)
    | .cons ⟨.leftBracket, opened, _⟩ inner => do
      let reached := match inner with
        | .cons l _ => l.stop
        | .done offset => offset
        | .stuck _ => opened
      let (e, ts) ← close start opened .rightBracket (nested reached) inner
      let first ← accessor e opened
      let (more, ts) ← accessors fuel ts
      return (first :: more, ts)
    | ts => .ok ([], ts)

def primary : Parser
  | .stuck error => .error error
  | .done _ => .error (.unterminated start)
  | .cons l rest =>
    match l.token with
    | .int i => .ok (literal (.int i), rest)
    | .double x => .ok (literal (.double x), rest)
    | .string s => .ok (literal (.string s), rest)
    | .trueWord => .ok (literal (.bool true), rest)
    | .falseWord => .ok (literal (.bool false), rest)
    | .nullWord => .ok (literal .null, rest)
    | .identifier context => do
      let (steps, ts) ← accessors start nested rest.length rest
      return (read context steps, ts)
    | .leftParen => close start l.start .rightParen (nested l.stop) rest
    | .openBinding => close start l.start .closeBrace (nested l.stop) rest
    | .rightBracket => .error (.unbalancedBrackets l.start)
    | .rightParen => .error (.unbalancedBrackets l.start)
    | token => .error (.unexpectedToken token l.start)

end

def negated : Expr → Expr
  | literal (.int i) => if i = Int64.minValue then unary .neg (literal (.int i)) else literal (.int (-i))
  | literal (.double x) => literal (.double x.neg)
  | e => unary .neg e

section

-- `nested room offset` reads an expression with `room` levels left, of which it takes one
variable (start : Nat) (nested : Nat → Nat → Parser)

def signed : Nat → Parser
  | room, .cons ⟨.bang, _, stop⟩ rest =>
    match room with
    | 0 => .error (.tooDeep stop)
    | room + 1 => do
      let (e, ts) ← signed room rest
      return (unary .not e, ts)
  | room, .cons ⟨.minus, _, stop⟩ rest =>
    match room with
    | 0 => .error (.tooDeep stop)
    | room + 1 => do
      let (e, ts) ← signed room rest
      return (negated e, ts)
  | room, ts => primary start (nested room) ts

end

def chain (op? : Token → Option BinaryOp) (operand : Nat → Parser) :
    Nat → Expr → Parser
  | _, _, .stuck error => .error error
  | _, left, .done offset => .ok (left, .done offset)
  | room, left, .cons l rest =>
    match op? l.token with
    | none => .ok (left, .cons l rest)
    | some op =>
      match room with
      | 0 => .error (.tooDeep l.stop)
      | room + 1 => do
        let (right, ts) ← operand room rest
        chain op? operand room (binary op left right) ts

def chained (op? : Token → Option BinaryOp) (operand : Nat → Parser) (room : Nat) : Parser :=
  fun ts => do
    let (left, ts) ← operand room ts
    chain op? operand room left ts

section

variable (start : Nat) (nested : Nat → Nat → Parser)

def product : Nat → Parser := chained productOp? (signed start nested)
def sum : Nat → Parser := chained sumOp? (product start nested)
def comparison : Nat → Parser := chained comparisonOp? (sum start nested)
def equality : Nat → Parser := chained equalityOp? (comparison start nested)
def conjunction : Nat → Parser := chained conjunctionOp? (equality start nested)
def disjunction : Nat → Parser := chained disjunctionOp? (conjunction start nested)

def choice (room : Nat) : Parser := fun ts => do
  let (condition, ts) ← disjunction start nested room ts
  match ts with
  | .stuck error => .error error
  | .cons ⟨.question, _, stop⟩ rest =>
    let (whenTrue, ts) ← nested room stop rest
    match ts with
    | .stuck error => .error error
    | .done _ => .error (.unterminated start)
    | .cons ⟨.colon, _, stop⟩ rest =>
      let (whenFalse, ts) ← nested room stop rest
      return (conditional condition whenTrue whenFalse, ts)
    | .cons l _ => .error (.unexpectedToken l.token l.start)
  | ts => .ok (condition, ts)

end

def maxDepth : Nat := 64

-- An expression with `room` levels left, which begins behind `offset`. There are never more levels
-- than `fuel`.
def parseNested (start : Nat) : Nat → Nat → Nat → Parser
  | _, 0, offset, _ => .error (.tooDeep offset)
  | 0, _, offset, _ => .error (.tooDeep offset)
  | fuel + 1, room + 1, _, ts => choice start (parseNested start fuel) room ts

-- The expression of the binding that begins at `start`, from the tokens behind its opening mark,
-- and the offset behind its closing brace.
def parseTokens (start : Nat) (ts : Lexemes) : Except ParseError (Expr × Nat) := do
  if let .cons ⟨.closeBrace, _, _⟩ _ := ts then .error (.empty start)
  let (e, ts) ← parseNested start maxDepth maxDepth start ts
  match ts with
  | .stuck error => .error error
  | .done _ => .error (.unterminated start)
  | .cons ⟨.closeBrace, _, stop⟩ _ => .ok (e, stop)
  | .cons l _ => .error (.unclosed start none (some l))

def parseBinding (start : Nat) (cs : List Char) :
    Except ParseError (Expr × Nat × List Char) := do
  let (ts, rest) := Lexemes.scan (cs.length + 1) 0 (start + 2) cs
  let (e, stop) ← parseTokens start ts
  return (e, stop, rest)

end Expr

end BindingEngine
