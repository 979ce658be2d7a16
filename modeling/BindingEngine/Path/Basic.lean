import BindingEngine.Value.Basic

namespace BindingEngine

inductive Segment where
  | key (key : String)
  | index (index : UInt64)
deriving DecidableEq

abbrev Path := List Segment

def isIdentifierStart (c : Char) : Bool := c.isAlpha || c = '_'

def isIdentifierPart (c : Char) : Bool := c.isAlphanum || c = '_'

def isIdentifier : List Char → Bool
  | [] => false
  | c :: cs => isIdentifierStart c && cs.all isIdentifierPart

namespace Segment

-- A key between single quotes, with a backslash before every quote inside it.
def quoteKey (key : List Char) : List Char :=
  '\'' :: key.flatMap (fun c => if c = '\'' then ['\\', '\''] else [c]) ++ ['\'']

def chars : Segment → List Char
  | key k => if isIdentifier k.toList then '.' :: k.toList else '[' :: quoteKey k.toList ++ [']']
  | index i => '[' :: Nat.toDigits 10 i.toNat ++ [']']

def text (s : Segment) : String := String.ofList s.chars

end Segment

namespace Path

-- The written path. The dot before a leading field is left out.
def chars : Path → List Char
  | [] => []
  | .key k :: rest =>
    (if isIdentifier k.toList then k.toList else (Segment.key k).chars) ++ rest.flatMap Segment.chars
  | s :: rest => s.chars ++ rest.flatMap Segment.chars

def text (p : Path) : String := String.ofList p.chars

end Path

namespace Value

def step? (v : Value) : Segment → Option Value
  | .key k => v.field? k
  | .index i => v.item? i.toNat

def get? (v : Value) : Path → Option Value
  | [] => some v
  | s :: rest => (v.step? s).bind (·.get? rest)

@[simp] theorem get?_nil (v : Value) : v.get? [] = some v := rfl

end Value

end BindingEngine
