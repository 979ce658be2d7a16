import BindingEngine.Path.Basic
import BindingEngine.Value.Equality

namespace BindingEngine

structure Conflict where
  segment : Segment
  found : Kind
deriving DecidableEq

def Conflict.message (c : Conflict) : String :=
  "cannot access '" ++ c.segment.text ++ "' on a value of kind " ++ c.found.name

namespace Value

-- How many nulls an update may insert before a position.
def maxGrowth : Nat := 1024

-- What an update finds one step further on. What is missing counts as null.
def next (v : Value) (s : Segment) : Value := (v.step? s).getD null

-- Whether a segment applies to what is found. Null counts as an empty map or array.
def admits : Value → Segment → Bool
  | null, .key _ => true
  | map _, .key _ => true
  | null, .index i => i.toNat ≤ maxGrowth
  | array items, .index i => i.toNat - items.length ≤ maxGrowth
  | _, _ => false

def check : Value → Path → Except Conflict Unit
  | _, [] => .ok ()
  | v, s :: rest => if v.admits s then (v.next s).check rest else .error ⟨s, v.kind⟩

def setItem (items : List Value) (i : Nat) (v : Value) : List Value :=
  (items ++ List.replicate (i + 1 - items.length) null).set i v

-- The value with `v` one step further on. What is of another kind than the step needs is replaced.
def put : Value → Segment → Value → Value
  | map entries, .key k, v => map (Table.insert entries k v)
  | _, .key k, v => map [(k, v)]
  | array items, .index i, v => array (setItem items i.toNat v)
  | _, .index i, v => array (setItem [] i.toNat v)

def overwrite (new : Value) : Value → Path → Value
  | _, [] => new
  | v, s :: rest => v.put s (overwrite new (v.next s) rest)

def update (target : Value) (p : Path) (new : Value) : Except Conflict Unit × Value :=
  match target.check p with
  | .error c => (.error c, target)
  | .ok () => (.ok (), overwrite new target p)

def set (target : Value) (p : Path) (new : Value) : Except Conflict Value :=
  (target.update p new).1.map fun _ => (target.update p new).2

end Value

end BindingEngine
