import BindingEngine.Path.Basic
import BindingEngine.Text.Blank

namespace BindingEngine

def byteLength : List Char → Nat
  | [] => 0
  | c :: cs => c.utf8Size + byteLength cs

@[simp] theorem byteLength_nil : byteLength [] = 0 := rfl

@[simp] theorem byteLength_cons (c : Char) (cs : List Char) :
    byteLength (c :: cs) = c.utf8Size + byteLength cs := rfl

@[simp] theorem byteLength_append (cs ds : List Char) :
    byteLength (cs ++ ds) = byteLength cs + byteLength ds := by
  induction cs with
  | nil => simp
  | cons c cs ih => simp [ih, Nat.add_assoc]

namespace Path

inductive Flaw where
  | unbalancedBrackets
  | noIndexOrKey
  | noIdentifier
  | unexpectedCharacter
deriving DecidableEq

def Flaw.message : Flaw → String
  | unbalancedBrackets => "unbalanced brackets"
  | noIndexOrKey => "expected an index or a quoted key"
  | noIdentifier => "expected an identifier"
  | unexpectedCharacter => "unexpected character"

end Path

structure InvalidPath where
  path : String
  offset : Nat
  flaw : Path.Flaw
deriving DecidableEq

def InvalidPath.message (e : InvalidPath) : String :=
  "invalid path '" ++ e.path ++ "' at offset " ++ toString e.offset ++ ": " ++ e.flaw.message

namespace Path

def unescapeQuotes : List Char → List Char
  | '\\' :: '\'' :: cs => '\'' :: unescapeQuotes cs
  | c :: cs => c :: unescapeQuotes cs
  | [] => []

def quoted? : List Char → Option (List Char)
  | '\'' :: cs => if cs.getLast? = some '\'' then some cs.dropLast else none
  | _ => none

def decimalValue (cs : List Char) : Nat := cs.foldl (fun n c => 10 * n + (c.toNat - '0'.toNat)) 0

def position? (cs : List Char) : Option UInt64 :=
  let digits := match cs with
    | '+' :: cs => cs
    | cs => cs
  if digits.isEmpty || !digits.all Char.isDigit then none
  else if decimalValue digits < Nat.pow 2 64 then some (decimalValue digits).toUInt64
  else none

def group? (cs : List Char) : Option Segment :=
  match quoted? cs with
  | some key => some (.key (String.ofList (unescapeQuotes key)))
  | none => (position? cs).map .index

def isKeyPart (c : Char) : Bool := c ≠ '.' && c ≠ '['

-- Where the reader is: `start` if a field or a group is due, as at the beginning and after a dot.
inductive Place | start | behind
deriving DecidableEq

-- Reads the rest `cs` of a path, which begins at `offset`. Every round takes a character at least,
-- so `fuel` is their number.
def segments : Nat → Nat → Place → List Char → Except (Nat × Flaw) Path
  | _, _, _, [] => .ok []
  | 0, _, _, _ => .ok []
  | fuel + 1, offset, _, '[' :: cs =>
    if ']' ∈ cs then
      let inner := cs.takeWhile (· ≠ ']')
      match group? (Text.trim inner) with
      | none => .error (offset + 1, .noIndexOrKey)
      | some s =>
        (s :: ·) <$> segments fuel (offset + byteLength inner + 2) .behind
          (cs.drop (inner.length + 1))
    else .error (offset, .unbalancedBrackets)
  | fuel + 1, offset, .start, cs =>
    let key := cs.takeWhile isKeyPart
    if isIdentifier key then
      (.key (String.ofList key) :: ·) <$> segments fuel (offset + byteLength key) .behind
        (cs.dropWhile isKeyPart)
    else .error (offset, .noIdentifier)
  | fuel + 1, offset, .behind, c :: cs =>
    if c = '.' && !cs.isEmpty then segments fuel (offset + 1) .start cs
    else .error (offset, .unexpectedCharacter)

def parse (raw : String) : Except InvalidPath Path :=
  (segments raw.toList.length 0 .start raw.toList).mapError fun (offset, flaw) => ⟨raw, offset, flaw⟩

end Path

end BindingEngine
