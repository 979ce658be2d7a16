import BindingEngine.Expr.Evaluation
import BindingEngine.Expr.Parser
import BindingEngine.Value.Text

namespace BindingEngine

namespace Template

inductive Part where
  | text (chars : List Char)
  | binding (e : Expr)

def addChar (c : Char) : List Part → List Part
  | .text cs :: parts => .text (c :: cs) :: parts
  | parts => .text [c] :: parts

-- The parts of the text that begins at `offset`. Every round takes a character at least, so `fuel`
-- is their number.
def readParts : Nat → Nat → List Char → Except ParseError (List Part)
  | _, _, [] => .ok []
  | 0, _, _ => .ok []
  | fuel + 1, offset, '\\' :: '@' :: '{' :: cs =>
    (fun rest => addChar '@' (addChar '{' rest)) <$> readParts fuel (offset + 3) cs
  | fuel + 1, offset, '@' :: '{' :: cs => do
    let (e, stop, cs) ← Expr.parseBinding offset cs
    (.binding e :: ·) <$> readParts fuel stop cs
  | fuel + 1, offset, c :: cs => addChar c <$> readParts fuel (offset + c.utf8Size) cs

-- Whether an opening mark without a backslash before it is in a text. `escaped` says that the text
-- follows a backslash.
def hasOpening (escaped : Bool) : List Char → Bool
  | [] => false
  | c :: cs => (c = '@' && cs.head? = some '{' && !escaped) || hasOpening (c = '\\') cs

def unescape : List Char → List Char
  | '\\' :: '@' :: '{' :: cs => '@' :: '{' :: unescape cs
  | c :: cs => c :: unescape cs
  | [] => []

end Template

def containsBinding (raw : String) : Bool := Template.hasOpening false raw.toList

def unescapeText (raw : String) : String := String.ofList (Template.unescape raw.toList)

structure Template where
  source : String
  parts : List Template.Part

namespace Template

def parse (raw : String) : Except ParseError Template :=
  (⟨raw, ·⟩) <$> readParts raw.toList.length 0 raw.toList

def Part.reads : Part → List String
  | text _ => []
  | binding e => e.reads

def contextIds (t : Template) : List String := distinct (t.parts.flatMap Part.reads)

def references (t : Template) (id : String) : Bool := id ∈ t.contextIds

def Part.isBinding : Part → Bool
  | text _ => false
  | binding _ => true

def hasBindings (t : Template) : Bool := t.parts.any Part.isBinding

def Part.evaluate (resolve : Resolver) : Part → String
  | text cs => String.ofList cs
  | binding e => (e.evaluate resolve).text

def Part.misses (resolve : Resolver) : Part → List String
  | text _ => []
  | binding e => e.misses resolve

def evaluate (t : Template) (resolve : Resolver) : Value :=
  match t.parts with
  | [.binding e] => e.evaluate resolve
  | parts => .string (String.join (parts.map (Part.evaluate resolve)))

def misses (t : Template) (resolve : Resolver) : List String :=
  t.parts.flatMap (Part.misses resolve)

end Template

end BindingEngine
