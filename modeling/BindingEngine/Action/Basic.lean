import BindingEngine.Navigation.Basic

namespace BindingEngine

inductive Action where
  | setContext (id : String) (path : Option Path) (value : Data)
  | condition (test : Expression Bool) (onTrue onFalse : List Action)
  | sendRequest (url : Expression String) (method : Option (Expression Method))
      (headers : Option (Expression Headers)) (data : Option Data)
      (onSuccess onError onFinish : List Action)
  | navigate (n : Navigation)
  | submitForm

instance : Inhabited Action := ⟨.submitForm⟩

-- The handlers of a form: one list for inputs that are valid, one for inputs that are not.
structure Form where
  onSubmit : List Action := []
  onValidationError : List Action := []

namespace Action

def kindName : Action → String
  | setContext _ _ _ => "setContext"
  | condition _ _ _ => "condition"
  | sendRequest _ _ _ _ _ _ _ => "sendRequest"
  | navigate n => n.kind.name
  | submitForm => "submitForm"

inductive Kind where
  | setContext | condition | sendRequest | navigate | submitForm
deriving DecidableEq

namespace Kind

def name : Kind → String
  | setContext => "setContext"
  | condition => "condition"
  | sendRequest => "sendRequest"
  | navigate => "navigate"
  | submitForm => "submitForm"

def all : List Kind := [setContext, condition, sendRequest, navigate, submitForm]

-- The names of the fields, in the order in which an array has them.
def fields : Kind → List String
  | setContext => ["contextId", "path", "value"]
  | condition => ["condition", "onTrue", "onFalse"]
  | sendRequest => ["url", "method", "headers", "data", "onSuccess", "onError", "onFinish"]
  | _ => []

def handlers : Kind → List String
  | condition => ["onTrue", "onFalse"]
  | sendRequest => ["onSuccess", "onError", "onFinish"]
  | _ => []

def decode (nested : Bool) : Value → Decoded Kind
  | .string name => Decoded.ofOption (all.find? (·.name = name))
  | .int i => Decoded.ofOption (if nested && 0 ≤ i.toInt then all[i.toInt.toNat]? else none)
  | _ => .error .shape

end Kind

inductive Field where
  | contextId (id : String)
  | path (p : Option Path)
  | value (d : Data)
  | test (e : Expression Bool)
  | url (e : Expression String)
  | method (e : Option (Expression Method))
  | headers (e : Option (Expression Headers))
  | data (d : Option Data)
  | handlers (name : String) (actions : List Action)

namespace Field

-- Reads a field that holds no actions. Fields that an action of this kind does not have are passed
-- over.
def decode (kind : Kind) (name : String) (v : Value) : Decoded (List Field) :=
  match kind, name with
  | .setContext, "contextId" => (Decoded.string v).map fun id => [contextId id]
  | .setContext, "path" => (Decoded.optional Decoded.path v).map fun p => [path p]
  | .setContext, "value" => (Decoded.data v).map fun d => [value d]
  | .condition, "condition" => (Expression.decode v).map fun e => [test e]
  | .sendRequest, "url" => (Expression.decode v).map fun e => [url e]
  | .sendRequest, "method" => (Decoded.optional Expression.decode v).map fun e => [method e]
  | .sendRequest, "headers" => (Decoded.optional Expression.decode v).map fun e => [headers e]
  | .sendRequest, "data" => (Decoded.optional Decoded.data v).map fun d => [data d]
  | _, _ => .ok []

def contextId? : Field → Option String
  | contextId id => some id
  | _ => none

def path? : Field → Option Path
  | path p => p
  | _ => none

def value? : Field → Option Data
  | value d => some d
  | _ => none

def test? : Field → Option (Expression Bool)
  | test e => some e
  | _ => none

def url? : Field → Option (Expression String)
  | url e => some e
  | _ => none

def method? : Field → Option (Expression Method)
  | method e => e
  | _ => none

def headers? : Field → Option (Expression Headers)
  | headers e => e
  | _ => none

def data? : Field → Option Data
  | data d => d
  | _ => none

def handlers? (name : String) : Field → Option (List Action)
  | handlers name' actions => if name' = name then some actions else none
  | _ => none

end Field

def ofFields? (kind : Kind) (fields : List Field) : Option Action :=
  let handlers name := (fields.findSome? (Field.handlers? name)).getD []
  match kind with
  | .setContext => do
    let id ← fields.findSome? Field.contextId?
    return setContext id (fields.findSome? Field.path?)
      ((fields.findSome? Field.value?).getD (.value .null))
  | .condition => do
    let test ← fields.findSome? Field.test?
    return condition test (handlers "onTrue") (handlers "onFalse")
  | .sendRequest => do
    let url ← fields.findSome? Field.url?
    return sendRequest url (fields.findSome? Field.method?) (fields.findSome? Field.headers?)
      (fields.findSome? Field.data?) (handlers "onSuccess") (handlers "onError")
      (handlers "onFinish")
  | .submitForm => some submitForm
  | .navigate => none

mutual

-- Reads an action. It is a record with its kind under `_action_`, or in the first place of an
-- array.
def decode (nested : Bool) : Value → Decoded Action
  | .map entries => do
    let kind ← Kind.decode nested (← Decoded.ofOption (Table.get? entries "_action_"))
    if kind = .navigate then
      navigate <$> Navigation.decode true (.map (Table.erase entries "_action_"))
    else
      Decoded.ofOption (ofFields? kind (← decodeEntries kind entries))
  | .array (tag :: items) => do
    let kind ← Kind.decode nested tag
    if kind = .navigate then navigate <$> Navigation.decode true (.array items)
    else
      Decoded.ofOption (ofFields? kind (← decodeFields kind kind.fields items))
  | _ => .error .shape

def decodeHandlers : Value → Decoded (List Action)
  | .array items => decodeItems items
  | _ => .error .shape

def decodeItems : List Value → Decoded (List Action)
  | [] => .ok []
  | v :: vs => do
    let action ← decode true v
    let actions ← decodeItems vs
    return action :: actions

def decodeEntries (kind : Kind) : List (String × Value) → Decoded (List Field)
  | [] => .ok []
  | (name, v) :: entries => do
    let field ←
      if name ∈ kind.handlers then (decodeHandlers v).map fun actions => [.handlers name actions]
      else Field.decode kind name v
    let fields ← decodeEntries kind entries
    return field ++ fields

-- The fields of an array, which has no more than there are names.
def decodeFields (kind : Kind) : List String → List Value → Decoded (List Field)
  | _, [] => .ok []
  | [], _ :: _ => .error .shape
  | name :: names, v :: vs => do
    let field ←
      if name ∈ kind.handlers then (decodeHandlers v).map fun actions => [.handlers name actions]
      else Field.decode kind name v
    let fields ← decodeFields kind names vs
    return field ++ fields

end

def decodeAll : Value → Decoded (List Action)
  | .array items => items.mapM (decode false)
  | _ => .error .shape

def handlerField (name : String) (actions : List Value) : Option (String × Value) :=
  if actions.isEmpty then none else some (name, .array actions)

mutual

def written : Action → Value
  | setContext id path value =>
    Record.written [Record.field "_action_" (.string "setContext"), Record.field "contextId" (.string id),
      Record.optionalField "path" (fun p => .string (Path.text p)) path, Record.field "value" value.written]
  | condition test onTrue onFalse =>
    Record.written [Record.field "_action_" (.string "condition"), Record.field "condition" test.written,
      handlerField "onTrue" (writtenAll onTrue), handlerField "onFalse" (writtenAll onFalse)]
  | sendRequest url method headers data onSuccess onError onFinish =>
    Record.written [Record.field "_action_" (.string "sendRequest"), Record.field "url" url.written,
      Record.optionalField "method" Expression.written method,
      Record.optionalField "headers" Expression.written headers,
      Record.optionalField "data" Data.written data,
      handlerField "onSuccess" (writtenAll onSuccess), handlerField "onError" (writtenAll onError),
      handlerField "onFinish" (writtenAll onFinish)]
  | navigate n => Record.written (Record.field "_action_" (.string "navigate") :: n.writtenFields)
  | submitForm => Record.written [Record.field "_action_" (.string "submitForm")]

def writtenAll : List Action → List Value
  | [] => []
  | action :: actions => action.written :: writtenAll actions

end

end Action

namespace Form

def decode : Value → Decoded Form :=
  Record.read ["onSubmit", "onValidationError"] [] {} fun f name v =>
    match name with
    | "onSubmit" => (Action.decodeAll v).map fun actions => { f with onSubmit := actions }
    | "onValidationError" =>
      (Action.decodeAll v).map fun actions => { f with onValidationError := actions }
    | _ => .ok f

def written (f : Form) : Value :=
  Record.written [Action.handlerField "onSubmit" (Action.writtenAll f.onSubmit),
    Action.handlerField "onValidationError" (Action.writtenAll f.onValidationError)]

end Form

end BindingEngine
