import BindingEngine.Proofs.Engine.Reachable
import BindingEngine.Session.Execution

namespace BindingEngine

-- What passes between a session and the outside: a call of the platform with what it answered, or the
-- outcome of a request.
inductive Exchange where
  | built (root : NodeId) (destination : Destination) (r : Except String Unit)
  | sent (id : Nat) (request : Request) (r : Except String Unit)
  | openedUrl (url : String)
  | openedNative (screen : NativeScreen)
  | validated (form : NodeId)
  | dismissed (root : NodeId)
  | answered (id : Nat)

namespace Exchange

def built? : Exchange → Option NodeId
  | built root _ (.ok _) => some root
  | _ => none

def dismissed? : Exchange → Option NodeId
  | dismissed root => some root
  | _ => none

-- The number of a request that was sent, or that could not be sent.
def sent? : Exchange → Option Nat
  | sent id _ _ => some id
  | _ => none

-- The requests without an outcome after an exchange, the oldest first.
def awaited (ids : List Nat) : Exchange → List Nat
  | sent id _ (.ok _) => ids ++ [id]
  | answered id => ids.filter (· ≠ id)
  | _ => ids

end Exchange

abbrev Transcript := List Exchange

namespace Transcript

def built (t : Transcript) : List NodeId := t.filterMap Exchange.built?

def dismissed (t : Transcript) : List NodeId := t.filterMap Exchange.dismissed?

def sent (t : Transcript) : List Nat := t.filterMap Exchange.sent?

def awaited (t : Transcript) : List Nat := t.foldl Exchange.awaited []

theorem built_append (t t' : Transcript) : built (t ++ t') = built t ++ built t' :=
  List.filterMap_append

theorem dismissed_append (t t' : Transcript) : dismissed (t ++ t') = dismissed t ++ dismissed t' :=
  List.filterMap_append

end Transcript

def Platform.transcribed {σ : Type} (p : Platform σ) : Platform (σ × Transcript) where
  buildScreen h e root destination :=
    let (r, e, h') := p.buildScreen h.1 e root destination
    (r, e, h', h.2 ++ [.built root destination r])
  sendRequest h id request :=
    let (r, h') := p.sendRequest h.1 id request
    (r, h', h.2 ++ [.sent id request r])
  openUrl h url :=
    let (r, h') := p.openUrl h.1 url
    (r, h', h.2 ++ [.openedUrl url])
  openNative h screen :=
    let (r, h') := p.openNative h.1 screen
    (r, h', h.2 ++ [.openedNative screen])
  validateForm h e n :=
    let (valid, h') := p.validateForm h.1 e n
    (valid, h', h.2 ++ [.validated n])
  dismissScreen h root := (p.dismissScreen h.1 root, h.2 ++ [.dismissed root])

namespace Session

variable {σ : Type}

def transcript (s : Session (σ × Transcript)) : Transcript := s.host.2

def note (s : Session (σ × Transcript)) (x : Exchange) : Session (σ × Transcript) :=
  { s with host := (s.host.1, s.host.2 ++ [x]) }

def start (p : Platform σ) (h : σ) (global : Value) (baseUrl : Option String) :
    Session (σ × Transcript) where
  platform := p.transcribed
  host := (h, [])
  engine := .start global baseUrl

inductive Input : Type 1
  | launch (route : Route)
  | execute (actions : List Action) (origin : NodeId) (event : Option Event)
    (depth : Nat := maxSubmissions)
  | complete (id : Nat) (outcome : Except RequestFailure Response) (depth : Nat := maxSubmissions)
  | registerDeepLink (route screen : String)
  | adjust (op : Engine.Operation)

def apply (s : Session (σ × Transcript)) : Input → Session (σ × Transcript)
  | .launch route => (s.launch route).2
  | .execute actions origin event depth => (s.execute actions origin event depth).2
  | .complete id outcome depth => ((s.note (.answered id)).complete id outcome depth).2
  | .registerDeepLink route screen => (s.registerDeepLink route screen).2
  | .adjust op => { s with engine := s.engine.apply op }

end Session

end BindingEngine
