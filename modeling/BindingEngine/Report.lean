import BindingEngine.Scope.Basic
import BindingEngine.Text.Quoted
import BindingEngine.Value.Patch

namespace BindingEngine

inductive Level where
  | trace | debug | warn
deriving DecidableEq

def Level.name : Level → String
  | trace => "TRACE"
  | debug => "DEBUG"
  | warn => "WARN"

inductive Report where
  | delivered (observer : String) (node : NodeId) (v : Value)
  | contextDeclared (node : NodeId) (id : String)
  | formDeclared (node : NodeId)
  | subtreeDestroyed (node : NodeId) (removed : Nat)
  | subscriptionCreated (subscription : Nat) (node : NodeId) (source : String)
  | subscriptionRemoved (subscription : Nat) (node : NodeId)
  | updating (subscription : Nat) (v : Value)
  | notConvertible
  | unresolved (id : String)
  | unchanged
  | contextChanged (id : String) (location : Location)
  | changed (c : Change)
  | handedOver (node : NodeId)
  | unknownRequest
  | originGone
  | originTornDown (action : String)
  | running (action : String)
  | recovered (action : String) (e : Error)
  | noCondition
  | noRequestUrl
  | sending (request : Nat) (url : String)
  | noForm
  | submitting (form : NodeId)
  | invalidForm (form : NodeId)
  | noRouteUrl
  | noExternalUrl
  | noNativeRoute
  | unknownNativeRoute (route : String)
  | noReturnTarget
  | unknownReturnTarget (target : String)
  | openingUrl (url : String)
  | openingNative (screen : String)
  | presented (root : NodeId) (url : Option String)
  | lastStack

namespace Report

def received? : Report → Option (String × NodeId × Value)
  | delivered observer node v => some (observer, node, v)
  | _ => none

def entry? : Report → Option (Level × String × List (String × String))
  | delivered _ _ _ => none
  | contextDeclared node id =>
    some (.trace, "context declared", [("node", node.text), ("context", id)])
  | formDeclared node => some (.trace, "form declared", [("node", node.text)])
  | subtreeDestroyed node removed =>
    some (.trace, "subtree destroyed", [("node", node.text), ("removed", toString removed)])
  | subscriptionCreated subscription node source =>
    some (.trace, "subscription created",
      [("subscription", toString subscription), ("node", node.text), ("template", source)])
  | subscriptionRemoved subscription node =>
    some (.trace, "subscription removed",
      [("subscription", toString subscription), ("node", node.text)])
  | updating subscription v =>
    some (.trace, "delivering update",
      [("subscription", toString subscription), ("value", v.display)])
  | notConvertible => some (.trace, "cannot convert bound value", [])
  | unresolved id => some (.trace, "unresolved context", [("context", id)])
  | unchanged => some (.trace, "value unchanged", [])
  | contextChanged id location =>
    some (.debug, "context changed", [("context", id), ("at", location.text)])
  | changed c => some (.debug, "- " ++ c.text, [])
  | handedOver node => some (.trace, "navigation context seeded", [("node", node.text)])
  | unknownRequest => some (.warn, "unknown request", [])
  | originGone => some (.debug, "request origin no longer exists, dropping response", [])
  | originTornDown action =>
    some (.debug, "origin torn down, skipping remaining actions", [("action", action)])
  | running action => some (.trace, "running action", [("action", action)])
  | recovered action e => some (.warn, e.message, [("action", action)])
  | noCondition => some (.warn, "condition does not evaluate to a boolean", [])
  | noRequestUrl => some (.warn, "request url does not evaluate to text", [])
  | sending request url =>
    some (.debug, "sending request", [("request", toString request), ("url", url)])
  | noForm => some (.warn, "no form encloses the origin", [])
  | submitting form => some (.debug, "submitting form", [("form", form.text)])
  | invalidForm form => some (.debug, "form has validation errors", [("form", form.text)])
  | noRouteUrl => some (.warn, "route url does not evaluate to text", [])
  | noExternalUrl => some (.warn, "external url does not evaluate to text", [])
  | noNativeRoute => some (.warn, "native route does not evaluate to text", [])
  | unknownNativeRoute route =>
    some (.warn, "no native screen registered for route", [("route", route)])
  | noReturnTarget => some (.warn, "pop target does not evaluate to text", [])
  | unknownReturnTarget target => some (.warn, "no screen to pop to", [("target", target)])
  | openingUrl url => some (.debug, "opening external url", [("url", url)])
  | openingNative screen => some (.debug, "opening native route", [("screen", screen)])
  | presented root url =>
    let url := match url with
      | some url => "Some(" ++ Text.quote url ++ ")"
      | none => "None"
    some (.trace, "screen presented", [("root", root.text), ("url", url)])
  | lastStack => some (.trace, "cannot pop the last stack", [])

def line? (r : Report) : Option String :=
  r.entry?.map fun (level, message, fields) =>
    level.name ++ " " ++ message ++
      String.join (fields.map fun (name, text) => " " ++ name ++ "=" ++ text)

end Report

def Expression.reports {α : Type} [Attribute α] (x : Expression α) (resolve : Resolver) :
    List Report :=
  (x.misses resolve).map .unresolved ++
    if (x.evaluate resolve).isSome then [] else [.notConvertible]

def Data.reports (d : Data) (resolve : Resolver) : List Report :=
  (d.misses resolve).map .unresolved

end BindingEngine
