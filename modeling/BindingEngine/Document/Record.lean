import BindingEngine.Document.Attribute

namespace BindingEngine

namespace Record

def fields? (names : List String) : Value → Option (Table String Value × Bool)
  | .map entries => some (entries, false)
  | .array items => some (names.zip items, names.length < items.length)
  | _ => none

-- Reads a record: `step` takes the next field into what has been read so far, beginning with
-- `start`.
def read {α : Type} (names required : List String) (start : α)
    (step : α → String → Value → Decoded α) (v : Value) : Decoded α :=
  match fields? names v with
  | none => .error .shape
  | some (fields, surplus) => do
    let a ← fields.foldlM (fun a (name, v) => step a name v) start
    if surplus || required.any (!Table.contains fields ·) then .error .shape else .ok a

def written (fields : List (Option (String × Value))) : Value := .map (fields.filterMap id)

def field (name : String) (v : Value) : Option (String × Value) := some (name, v)

def optionalField {α : Type} (name : String) (write : α → Value) (a : Option α) :
    Option (String × Value) :=
  a.map fun a => (name, write a)

end Record

namespace Decoded

def ofOption {α : Type} : Option α → Decoded α
  | some a => .ok a
  | none => .error .shape

def optional {α : Type} (decode : Value → Decoded α) : Value → Decoded (Option α)
  | .null => .ok none
  | v => some <$> decode v

def string (v : Value) : Decoded String := ofOption v.string?

def bool (v : Value) : Decoded Bool := ofOption v.bool?

def headers (v : Value) : Decoded Headers := ofOption (Attribute.read? v)

def method (v : Value) : Decoded Method := ofOption (Attribute.read? v)

def path (v : Value) : Decoded Path := do (Path.parse (← string v)).mapError .path

def data (v : Value) : Decoded Data := (Data.parse v).mapError .parse

end Decoded

end BindingEngine
