import BindingEngine.Table
import BindingEngine.Binary64.Rounding
import BindingEngine.Json.Basic

namespace BindingEngine

inductive Value where
  | null
  | bool (b : Bool)
  | int (i : Int64)
  | double (x : Binary64)
  | string (s : String)
  | array (items : List Value)
  | map (entries : List (String × Value))
deriving Inhabited

inductive Kind where
  | null | bool | int | double | string | array | map
deriving DecidableEq

def Kind.name : Kind → String
  | .null => "null"
  | .bool => "bool"
  | .int => "int"
  | .double => "double"
  | .string => "string"
  | .array => "array"
  | .map => "map"

namespace Value

def kind : Value → Kind
  | null => .null
  | bool _ => .bool
  | int _ => .int
  | double _ => .double
  | string _ => .string
  | array _ => .array
  | map _ => .map

def isNull : Value → Bool
  | null => true
  | _ => false

def bool? : Value → Option Bool
  | bool b => some b
  | _ => none

def int? : Value → Option Int64
  | int i => some i
  | _ => none

def number? : Value → Option Binary64
  | int i => some (.ofInt i.toInt)
  | double x => some x
  | _ => none

def string? : Value → Option String
  | string s => some s
  | _ => none

def items? : Value → Option (List Value)
  | array items => some items
  | _ => none

def entries? : Value → Option (Table String Value)
  | map entries => some entries
  | _ => none

def field? (v : Value) (key : String) : Option Value :=
  v.entries?.bind (Table.get? · key)

def item? (v : Value) (index : Nat) : Option Value :=
  v.items?.bind (·[index]?)

def ofInt? (i : Int) : Option Value :=
  if Int64.minValue.toInt ≤ i ∧ i ≤ Int64.maxValue.toInt then some (int (.ofInt i)) else none

-- Written without fraction and exponent a number is an integer if it fits, and everything else is a
-- double. A negative zero has no integer.
def ofNumber (n : Json.Number) : Value :=
  let i : Int := if n.negative then -n.digits else n.digits
  let asDouble := double (.ofDecimal n.negative n.digits n.exponent)
  if n.integral && !(n.negative && n.digits = 0) then (ofInt? i).getD asDouble else asDouble

mutual

def ofJson : Json → Value
  | .null => null
  | .bool b => bool b
  | .number n => ofNumber n
  | .string s => string s
  | .array items => array (itemsOfJson items)
  | .object members => map (entriesOfJson members)

def itemsOfJson : List Json → List Value
  | [] => []
  | item :: items => ofJson item :: itemsOfJson items

def entriesOfJson : List (String × Json) → List (String × Value)
  | [] => []
  | (key, value) :: members => (key, ofJson value) :: entriesOfJson members

end

mutual

-- The value as a document can hold it, where what is no number is null.
def documented : Value → Value
  | double x => if x.isFinite then double x else null
  | array items => array (documentedItems items)
  | map entries => map (documentedEntries entries)
  | v => v

def documentedItems : List Value → List Value
  | [] => []
  | v :: vs => documented v :: documentedItems vs

def documentedEntries : List (String × Value) → List (String × Value)
  | [] => []
  | (k, v) :: entries => (k, documented v) :: documentedEntries entries

end

end Value

end BindingEngine
