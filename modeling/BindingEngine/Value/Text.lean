import BindingEngine.Value.Basic
import BindingEngine.Binary64.Text

namespace BindingEngine.Value

mutual

def json : Value → String
  | null => "null"
  | bool b => if b then "true" else "false"
  | int i => toString i.toInt
  | double x => x.json
  | string s => Json.quote s
  | array items => "[" ++ ",".intercalate (itemsJson items) ++ "]"
  | map entries => "\x7b" ++ ",".intercalate (entriesJson entries) ++ "\x7d"

def itemsJson : List Value → List String
  | [] => []
  | v :: vs => json v :: itemsJson vs

def entriesJson : List (String × Value) → List String
  | [] => []
  | (key, v) :: entries => (Json.quote key ++ ":" ++ json v) :: entriesJson entries

end

-- The value on its own. A double stands without fraction if it has none, anything inside an array
-- or a map is as in a document.
def display : Value → String
  | double x => x.plain
  | string s => Json.quote s
  | v => v.json

def text : Value → String
  | null => ""
  | string s => s
  | v => v.display

end BindingEngine.Value
