import BindingEngine.Value.Equality
import BindingEngine.Value.Text

namespace BindingEngine

inductive Change where
  | add (path : List String) (v : Value)
  | replace (path : List String) (v : Value)
  | remove (path : List String)

namespace Change

-- A path with a slash before every name. The slash itself and the tilde are escaped in names.
def pointer (path : List String) : String :=
  String.ofList <| path.flatMap fun name =>
    '/' :: name.toList.flatMap fun c =>
      if c = '~' then ['~', '0'] else if c = '/' then ['~', '1'] else [c]

def value : Change → Value
  | add path v =>
    .map [("op", .string "add"), ("path", .string (pointer path)), ("value", v)]
  | replace path v =>
    .map [("op", .string "replace"), ("path", .string (pointer path)), ("value", v)]
  | remove path => .map [("op", .string "remove"), ("path", .string (pointer path))]

def text (c : Change) : String := c.value.json

end Change

namespace Value

mutual

def changes (path : List String) (old new : Value) : List Change :=
  match old, new with
  | map old, map new =>
    entryChanges path old new ++
      (old.filter fun (key, _) => !Table.contains new key).map fun (key, _) => .remove (path ++ [key])
  | array old, array new => itemChanges path 0 old new
  | old, new => if old.equals new then [] else [.replace path new]
termination_by structural new

def itemChanges (path : List String) (i : Nat) (old new : List Value) : List Change :=
  match old, new with
  | old, [] => old.map fun _ => .remove (path ++ [toString i])
  | [], v :: new => .add (path ++ [toString i]) v :: itemChanges path (i + 1) [] new
  | u :: old, v :: new =>
    changes (path ++ [toString i]) u v ++ itemChanges path (i + 1) old new
termination_by structural new

def entryChanges (path : List String) (old : Table String Value) (new : List (String × Value)) :
    List Change :=
  match new with
  | [] => []
  | (key, v) :: new =>
    (match Table.get? old key with
      | some u => changes (path ++ [key]) u v
      | none => [.add (path ++ [key]) v]) ++ entryChanges path old new
termination_by structural new

end

end Value

end BindingEngine
