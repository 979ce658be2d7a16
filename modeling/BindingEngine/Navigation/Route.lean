import BindingEngine.Document.Record

namespace BindingEngine

namespace Url

def hasScheme : List Char → Bool
  | ':' :: '/' :: '/' :: _ => true
  | _ :: cs => hasScheme cs
  | [] => false

-- The URL behind a base, with one slash between them. A URL with a scheme stays as it is.
def absolute (base : Option String) (url : String) : String :=
  match base with
  | none => url
  | some base =>
    if hasScheme url.toList then url
    else
      let front := (base.toList.reverse.dropWhile (· = '/')).reverse
      String.ofList (front ++ '/' :: url.toList.dropWhile (· = '/'))

end Url

structure ScreenRequest (β : Type) where
  method : Method := .get
  headers : Headers := []
  body : Option β := none

structure RemoteRoute where
  url : Expression String
  prefetch : Bool := false
  -- The screen to show if the remote one cannot be fetched.
  fallback : Option Value := none
  request : Option (ScreenRequest Data) := none

inductive Route where
  | screen (document : Value)
  | remote (r : RemoteRoute)

inductive Destination where
  | screen (document : Value)
  | remote (url : String) (prefetch : Bool) (fallback : Option Value)
      (request : Option (ScreenRequest Value))

namespace Destination

def url? : Destination → Option String
  | screen _ => none
  | remote url _ _ _ => some url

def identifier? : Destination → Option String
  | screen document => (document.field? "identifier").bind Value.string?
  | remote _ _ _ _ => none

end Destination

namespace ScreenRequest

def decode : Value → Decoded (ScreenRequest Data) :=
  Record.read ["method", "headers", "body"] [] {} fun r name v =>
    match name with
    | "method" => (Decoded.method v).map fun m => { r with method := m }
    | "headers" => (Decoded.headers v).map fun h => { r with headers := h }
    | "body" => (Decoded.optional Decoded.data v).map fun b => { r with body := b }
    | _ => .ok r

def written (r : ScreenRequest Data) : Value :=
  Record.written [Record.field "method" (Attribute.write r.method),
    if r.headers.isEmpty then none else Record.field "headers" (Attribute.write r.headers),
    Record.optionalField "body" Data.written r.body]

end ScreenRequest

namespace RemoteRoute

def decode : Value → Decoded RemoteRoute :=
  Record.read ["url", "shouldPrefetch", "fallback", "httpAdditionalData"] ["url"]
    { url := .value "" } fun r name v =>
      match name with
      | "url" => (Expression.decode v).map fun u => { r with url := u }
      | "shouldPrefetch" => (Decoded.bool v).map fun p => { r with prefetch := p }
      | "fallback" => (Decoded.optional .ok v).map fun f => { r with fallback := f }
      | "httpAdditionalData" =>
        (Decoded.optional ScreenRequest.decode v).map fun q => { r with request := q }
      | _ => .ok r

def written (r : RemoteRoute) : Value :=
  Record.written [Record.field "url" r.url.written,
    Record.field "shouldPrefetch" (.bool r.prefetch),
    Record.optionalField "fallback" Value.documented r.fallback,
    Record.optionalField "httpAdditionalData" ScreenRequest.written r.request]

end RemoteRoute

namespace Route

-- A route that holds a screen leads to it, whatever else it holds. Of a route that is neither kind
-- nothing more is said.
def decode (v : Value) : Decoded Route :=
  match v.field? "screen" with
  | some document => .ok (screen document)
  | none =>
    match RemoteRoute.decode v with
    | .ok r => .ok (remote r)
    | .error _ => .error .shape

def written : Route → Value
  | screen document => Record.written [Record.field "screen" document.documented]
  | remote r => r.written

def destination? (resolve : Resolver) (base : Option String) : Route → Option Destination
  | screen document => some (.screen document)
  | remote r => do
    let url ← r.url.evaluate resolve
    let request := r.request.map fun request =>
      { request with body := request.body.map (·.evaluate resolve) }
    return .remote (Url.absolute base url) r.prefetch r.fallback request

end Route

end BindingEngine
