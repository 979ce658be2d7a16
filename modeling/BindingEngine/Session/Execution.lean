import BindingEngine.Session.Basic

namespace BindingEngine

def Response.context (r : Response) : Context where
  id := "onSuccess"
  value := .map [("data", r.data), ("status", .int (.ofNat r.status)),
    ("statusText", .string r.statusText)]

def RequestFailure.context (f : RequestFailure) : Context where
  id := "onError"
  value := .map [("data", f.data), ("status", .ofOption (f.status.map fun n => .int (.ofNat n))),
    ("statusText", .ofOption (f.statusText.map .string)), ("message", .string f.message)]

namespace Session

variable {σ : Type}

def setContext (s : Session σ) (id : String) (path : Option Path) (value : Data)
    (origin : NodeId) (implicit : List Context) : Step σ :=
  let resolve := s.resolver origin implicit
  let s := s.report (value.reports resolve)
  let (r, engine) := s.engine.setContext id (path.getD []) (value.evaluate resolve) origin
  (r, { s with engine })

def request? (s : Session σ) (url : Expression String) (method : Option (Expression Method))
    (headers : Option (Expression Headers)) (data : Option Data) (resolve : Resolver) :
    Option Request × List Report :=
  match url.evaluate resolve with
  | none => (none, url.reports resolve ++ [.noRequestUrl])
  | some text =>
    (some
      { url := Url.absolute s.engine.baseUrl text
        method := (method.bind (·.evaluate resolve)).getD .get
        headers := (headers.bind (·.evaluate resolve)).getD []
        body := data.map (·.evaluate resolve) },
      url.reports resolve ++ (method.map (·.reports resolve)).getD [] ++
        (headers.map (·.reports resolve)).getD [] ++ (data.map (·.reports resolve)).getD [])

def send (s : Session σ) (request : Request) (pending : Pending) : Step σ :=
  let id := s.nextRequest
  let s := s.report [.sending id request.url]
  match s.platform.sendRequest s.host id request with
  | (.error e, host) => (.error (.ofPlatform e), { s with host, nextRequest := id + 1 })
  | (.ok (), host) =>
    (.ok (), { s with host, nextRequest := id + 1, pending := Table.insert s.pending id pending })

section

-- `submit` submits the form around a node
variable (submit : NodeId → List Context → Session σ → Step σ)
variable (origin : NodeId) (implicit : List Context)

mutual

def run : Action → Session σ → Step σ
  | .setContext id path value, s => s.setContext id path value origin implicit
  | .condition test onTrue onFalse, s =>
    let resolve := s.resolver origin implicit
    let outcome := test.evaluate resolve
    let s := s.report (test.reports resolve)
    match outcome with
    | some true => runAll onTrue s
    | some false => runAll onFalse s
    | none => (.ok (), s.report [.noCondition])
  | .sendRequest url method headers data onSuccess onError onFinish, s =>
    match s.request? url method headers data (s.resolver origin implicit) with
    | (none, reports) => (.ok (), s.report reports)
    | (some request, reports) =>
      (s.report reports).send request ⟨origin, onSuccess, onError, onFinish⟩
  | .navigate n, s => s.navigate n origin implicit
  | .submitForm, s => submit origin implicit s

def runAll : List Action → Session σ → Step σ
  | [], s => (.ok (), s)
  | action :: actions, s =>
    if s.engine.tree.contains origin then
      match run action (s.report [.running action.kindName]) with
      | (.ok (), s) => runAll actions s
      | (.error e, s) =>
        if e.isRecoverable then runAll actions (s.report [.recovered action.kindName e])
        else (.error e, s)
    else (.ok (), s.report [.originTornDown action.kindName])

end

end

-- Runs the handlers of the form around a node, for the node of the form. The handlers may submit a form
-- again, one from within the other as often as the stack is deep.
def submit : Nat → NodeId → List Context → Session σ → Step σ
  | 0, _, _, s => (.error .overflow, s)
  | depth + 1, origin, implicit, s =>
    match s.engine.enclosingForm? origin with
    | none => (.ok (), s.report [.noForm])
    | some (node, form) =>
      let (valid, host) := s.platform.validateForm s.host s.engine node
      let s := { s with host }
      if valid then
        runAll (submit depth) node implicit form.onSubmit (s.report [.submitting node])
      else
        runAll (submit depth) node implicit form.onValidationError (s.report [.invalidForm node])

def maxSubmissions : Nat := 1024

def runActions (s : Session σ) (actions : List Action) (origin : NodeId) (implicit : List Context)
    (depth : Nat) : Step σ :=
  runAll (submit depth) origin implicit actions s

-- Runs the actions that a node triggered. They see the value of the event as an implicit context
-- with its name.
def execute (s : Session σ) (actions : List Action) (origin : NodeId) (event : Option Event)
    (depth : Nat := maxSubmissions) : Step σ :=
  if s.engine.tree.contains origin then
    s.runActions actions origin (event.map fun e => ⟨e.name, e.value⟩).toList depth
  else (.error (.missingNode origin), s)

-- Runs the handlers of a request that is complete, those for its outcome and then the last ones.
-- The first error is returned.
def complete (s : Session σ) (id : Nat) (outcome : Except RequestFailure Response)
    (depth : Nat := maxSubmissions) : Step σ :=
  match Table.get? s.pending id with
  | none => (.ok (), s.report [.unknownRequest])
  | some pending =>
    let s := { s with pending := Table.erase s.pending id }
    if s.engine.tree.contains pending.origin then
      let (handlers, context) := match outcome with
        | .ok response => (pending.onSuccess, response.context)
        | .error failure => (pending.onError, failure.context)
      let (handled, s) := s.runActions handlers pending.origin [context] depth
      let (finished, s) := s.runActions pending.onFinish pending.origin [] depth
      (match handled with
        | .ok () => finished
        | .error e => .error e, s)
    else (.ok (), s.report [.originGone])

end Session

end BindingEngine
