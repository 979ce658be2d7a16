import BindingEngine.Template.Basic

namespace BindingEngine

inductive Data where
  | value (v : Value)
  | binding (t : Template)
  | array (items : List Data)
  | map (entries : List (String × Data))
deriving Inhabited

namespace Data

def isConstant : Data → Bool
  | value _ => true
  | _ => false

def value? : Data → Option Value
  | value v => some v
  | _ => none

-- The array of some parts, which is a plain value if all of them are.
def ofItems (items : List Data) : Data :=
  match items.mapM value? with
  | some vs => value (.array vs)
  | none => array items

def ofEntries (entries : List (String × Data)) : Data :=
  match entries.mapM (fun (key, d) => d.value?.map (key, ·)) with
  | some vs => value (.map vs)
  | none => map entries

mutual

-- Reads every string of a value. The first that is no template is reported.
def parse : Value → Except ParseError Data
  | .string s =>
    if containsBinding s then binding <$> Template.parse s else .ok (value (.string (unescapeText s)))
  | .array items => ofItems <$> parseItems items
  | .map entries => ofEntries <$> parseEntries entries
  | v => .ok (value v)

def parseItems : List Value → Except ParseError (List Data)
  | [] => .ok []
  | v :: vs => do
    let d ← parse v
    let ds ← parseItems vs
    return d :: ds

def parseEntries : List (String × Value) → Except ParseError (List (String × Data))
  | [] => .ok []
  | (key, v) :: entries => do
    let d ← parse v
    let ds ← parseEntries entries
    return (key, d) :: ds

end

mutual

def reads : Data → List String
  | value _ => []
  | binding t => t.contextIds
  | array items => itemReads items
  | map entries => entryReads entries

def itemReads : List Data → List String
  | [] => []
  | d :: ds => d.reads ++ itemReads ds

def entryReads : List (String × Data) → List String
  | [] => []
  | (_, d) :: ds => d.reads ++ entryReads ds

end

def contextIds (d : Data) : List String := distinct d.reads

mutual

def evaluate (resolve : Resolver) : Data → Value
  | value v => v
  | binding t => t.evaluate resolve
  | array items => .array (evaluateItems resolve items)
  | map entries => .map (evaluateEntries resolve entries)

def evaluateItems (resolve : Resolver) : List Data → List Value
  | [] => []
  | d :: ds => d.evaluate resolve :: evaluateItems resolve ds

def evaluateEntries (resolve : Resolver) : List (String × Data) → List (String × Value)
  | [] => []
  | (key, d) :: ds => (key, d.evaluate resolve) :: evaluateEntries resolve ds

end

mutual

def misses (resolve : Resolver) : Data → List String
  | value _ => []
  | binding t => t.misses resolve
  | array items => itemMisses resolve items
  | map entries => entryMisses resolve entries

def itemMisses (resolve : Resolver) : List Data → List String
  | [] => []
  | d :: ds => d.misses resolve ++ itemMisses resolve ds

def entryMisses (resolve : Resolver) : List (String × Data) → List String
  | [] => []
  | (_, d) :: ds => d.misses resolve ++ entryMisses resolve ds

end

mutual

def written : Data → Value
  | value v => v.documented
  | binding t => .string t.source
  | array items => .array (writtenItems items)
  | map entries => .map (writtenEntries entries)

def writtenItems : List Data → List Value
  | [] => []
  | d :: ds => d.written :: writtenItems ds

def writtenEntries : List (String × Data) → List (String × Value)
  | [] => []
  | (key, d) :: ds => (key, d.written) :: writtenEntries ds

end

end Data

end BindingEngine
