import BindingEngine.Data.Basic

namespace BindingEngine

inductive DecodeError where
  | parse (e : ParseError)
  | path (e : InvalidPath)
  -- A part is missing, or of a kind that does not fit.
  | shape
deriving DecidableEq

abbrev Decoded := Except DecodeError

inductive Method where
  | get | post | put | patch | delete | head
deriving DecidableEq, Inhabited

namespace Method

def name : Method → String
  | get => "GET"
  | post => "POST"
  | put => "PUT"
  | patch => "PATCH"
  | delete => "DELETE"
  | head => "HEAD"

def ofName? (name : String) : Option Method :=
  [get, post, put, patch, delete, head].find? (·.name = name)

end Method

abbrev Headers := Table String String

-- A type of attributes: `read?` takes one from a document and `write` puts it into one.
class Attribute (α : Type) where
  read? : Value → Option α
  write : α → Value

namespace Attribute

instance : Attribute Value := ⟨some, id⟩
instance : Attribute String := ⟨Value.string?, .string⟩
instance : Attribute Bool := ⟨Value.bool?, .bool⟩
instance : Attribute Int64 := ⟨Value.int?, .int⟩
instance : Attribute Binary64 := ⟨Value.number?, .double⟩

-- The name of a method, which may also stand as the only key of a map, over null.
def readMethod? : Value → Option Method
  | .string name => Method.ofName? name
  | .map [(name, .null)] => Method.ofName? name
  | _ => none

instance : Attribute Method := ⟨readMethod?, fun m => .string m.name⟩

def readHeaders? (v : Value) : Option Headers := do
  (← v.entries?).mapM fun (name, v) => v.string?.map (name, ·)

instance : Attribute Headers :=
  ⟨readHeaders?, fun headers => .map (headers.map fun (name, text) => (name, .string text))⟩

end Attribute

-- A value as an attribute. What is neither null nor made of parts is tried again as text.
def convert? (α : Type) [Attribute α] (v : Value) : Option α :=
  match Attribute.read? v.documented with
  | some a => some a
  | none =>
    match v with
    | .null | .array _ | .map _ => none
    | v => Attribute.read? (.string v.text)

inductive Expression (α : Type) where
  | value (a : α)
  | binding (t : Template)

namespace Expression

variable {α : Type} [Attribute α]

def bound (raw : String) : Except ParseError (Expression α) := binding <$> Template.parse raw

def ofText (raw : String) : Except ParseError (Expression String) :=
  if containsBinding raw then bound raw else .ok (value (unescapeText raw))

def decode (v : Value) : Decoded (Expression α) :=
  let read (v : Value) : Decoded (Expression α) :=
    match Attribute.read? v with
    | some a => .ok (value a)
    | none => .error .shape
  match v with
  | .string raw =>
    if containsBinding raw then (bound raw).mapError .parse else read (.string (unescapeText raw))
  | v => read v

def contextIds : Expression α → List String
  | value _ => []
  | binding t => t.contextIds

def evaluate (e : Expression α) (resolve : Resolver) : Option α :=
  match e with
  | value a => some a
  | binding t => convert? α (t.evaluate resolve)

def misses (e : Expression α) (resolve : Resolver) : List String :=
  match e with
  | value _ => []
  | binding t => t.misses resolve

def written : Expression α → Value
  | value a => (Attribute.write a).documented
  | binding t => .string t.source

end Expression

end BindingEngine
