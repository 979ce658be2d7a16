import BindingEngine.Navigation.Route

namespace BindingEngine

structure NavigationContext where
  path : Option Path
  value : Data

inductive Presentation where
  -- In place of every stack.
  | resetApplication (controller : Option String)
  -- In place of the current stack.
  | resetStack
  -- In a new stack.
  | pushStack (controller : Option String)
  | pushView
deriving DecidableEq

-- How to go back. The target of `toView` is a URL or an identifier.
inductive Return (α : Type) where
  | stack
  | view
  | toView (target : α)

inductive Navigation where
  | openUrl (url : Expression String)
  | openNative (route : Expression String) (data : Headers) (resetApplication : Bool)
  | present (how : Presentation) (route : Route) (context : Option NavigationContext)
  | back (how : Return (Expression String)) (context : Option NavigationContext)

structure NativeScreen where
  screen : String
  data : Headers
  resetApplication : Bool

namespace Presentation

def name : Presentation → String
  | resetApplication _ => "resetApplication"
  | resetStack => "resetStack"
  | pushStack _ => "pushStack"
  | pushView => "pushView"

def controller? : Presentation → Option String
  | resetApplication c => c
  | pushStack c => c
  | _ => none

end Presentation

namespace NavigationContext

def decode : Value → Decoded NavigationContext :=
  Record.read ["path", "value"] [] ⟨none, .value .null⟩ fun c name v =>
    match name with
    | "path" => (Decoded.optional Decoded.path v).map fun p => { c with path := p }
    | "value" => (Decoded.data v).map fun d => { c with value := d }
    | _ => .ok c

def written (c : NavigationContext) : Value :=
  Record.written [Record.optionalField "path" (fun p => .string (Path.text p)) c.path,
    Record.field "value" c.value.written]

end NavigationContext

namespace Navigation

inductive Kind where
  | openExternalUrl | openNativeRoute | resetApplication | resetStack | pushStack | popStack
  | pushView | popView | popToView
deriving DecidableEq

namespace Kind

def name : Kind → String
  | openExternalUrl => "openExternalUrl"
  | openNativeRoute => "openNativeRoute"
  | resetApplication => "resetApplication"
  | resetStack => "resetStack"
  | pushStack => "pushStack"
  | popStack => "popStack"
  | pushView => "pushView"
  | popView => "popView"
  | popToView => "popToView"

def all : List Kind :=
  [openExternalUrl, openNativeRoute, resetApplication, resetStack, pushStack, popStack, pushView,
    popView, popToView]

def fields : Kind → List String
  | openExternalUrl => ["url"]
  | openNativeRoute => ["route", "data", "shouldResetApplication"]
  | resetApplication => ["route", "controllerId", "navigationContext"]
  | resetStack => ["route", "navigationContext"]
  | pushStack => ["route", "controllerId", "navigationContext"]
  | popStack => ["navigationContext"]
  | pushView => ["route", "navigationContext"]
  | popView => ["navigationContext"]
  | popToView => ["route", "navigationContext"]

-- Whether `route` leads to a screen, as opposed to being a text.
def presents : Kind → Bool
  | resetApplication | resetStack | pushStack | pushView => true
  | _ => false

end Kind

def kind : Navigation → Kind
  | openUrl _ => .openExternalUrl
  | openNative _ _ _ => .openNativeRoute
  | present (.resetApplication _) _ _ => .resetApplication
  | present .resetStack _ _ => .resetStack
  | present (.pushStack _) _ _ => .pushStack
  | present .pushView _ _ => .pushView
  | back .stack _ => .popStack
  | back .view _ => .popView
  | back (.toView _) _ => .popToView

def context? : Navigation → Option NavigationContext
  | present _ _ c => c
  | back _ c => c
  | _ => none

structure Fields where
  text : Option (Expression String) := none
  route : Option Route := none
  controller : Option String := none
  data : Headers := []
  resetApplication : Bool := false
  context : Option NavigationContext := none

namespace Fields

def step (kind : Kind) (f : Fields) (name : String) (v : Value) : Decoded Fields :=
  if name ∉ kind.fields then .ok f
  else
    match name with
    | "url" => (Expression.decode v).map fun e => { f with text := some e }
    | "route" =>
      if kind.presents then (Route.decode v).map fun r => { f with route := some r }
      else (Expression.decode v).map fun e => { f with text := some e }
    | "controllerId" => (Decoded.optional Decoded.string v).map fun c => { f with controller := c }
    | "data" => (Decoded.headers v).map fun d => { f with data := d }
    | "shouldResetApplication" =>
      (Decoded.bool v).map fun b => { f with resetApplication := b }
    | "navigationContext" =>
      (Decoded.optional NavigationContext.decode v).map fun c => { f with context := c }
    | _ => .ok f

def finish (f : Fields) : Kind → Option Navigation
  | .openExternalUrl => f.text.map .openUrl
  | .openNativeRoute => f.text.map (.openNative · f.data f.resetApplication)
  | .resetApplication => f.route.map (.present (.resetApplication f.controller) · f.context)
  | .resetStack => f.route.map (.present .resetStack · f.context)
  | .pushStack => f.route.map (.present (.pushStack f.controller) · f.context)
  | .pushView => f.route.map (.present .pushView · f.context)
  | .popStack => some (.back .stack f.context)
  | .popView => some (.back .view f.context)
  | .popToView => f.text.map fun e => .back (.toView e) f.context

end Fields

-- The kind of a navigation. Inside an action it may also be given by its place in the list of
-- kinds.
def Kind.decode (nested : Bool) : Value → Decoded Kind
  | .string name => Decoded.ofOption (Kind.all.find? (·.name = name))
  | .int i => Decoded.ofOption (if nested && 0 ≤ i.toInt then Kind.all[i.toInt.toNat]? else none)
  | _ => .error .shape

-- Reads a navigation. It is a record with its kind under `type`, or in the first place of an array.
def decode (nested : Bool) (v : Value) : Decoded Navigation := do
  let (tag, rest) ← match v with
    | .map entries =>
      let tag ← Decoded.ofOption (Table.get? entries "type")
      .ok (tag, Value.map (Table.erase entries "type"))
    | .array (tag :: items) => .ok (tag, .array items)
    | _ => .error .shape
  let kind ← Kind.decode nested tag
  let fields ← Record.read kind.fields [] {} (Fields.step kind) rest
  Decoded.ofOption (fields.finish kind)

def writtenFields (n : Navigation) : List (Option (String × Value)) :=
  Record.field "type" (.string n.kind.name) ::
    (match n with
    | openUrl url => [Record.field "url" url.written]
    | openNative route data reset =>
      [Record.field "route" route.written,
        if data.isEmpty then none else Record.field "data" (Attribute.write data),
        Record.field "shouldResetApplication" (.bool reset)]
    | present how route _ =>
      [Record.field "route" route.written, Record.optionalField "controllerId" Value.string how.controller?]
    | back (.toView target) _ => [Record.field "route" target.written]
    | back _ _ => []) ++
    [Record.optionalField "navigationContext" NavigationContext.written n.context?]

def written (n : Navigation) : Value := Record.written n.writtenFields

end Navigation

end BindingEngine
