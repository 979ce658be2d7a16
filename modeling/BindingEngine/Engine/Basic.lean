import BindingEngine.Action.Basic
import BindingEngine.Subscription.Registry

namespace BindingEngine

structure Engine where
  tree : Tree := {}
  global : Value := .null
  subscriptions : Registry := {}
  forms : Table NodeId Form := []
  baseUrl : Option String := none
  journal : List Report := []

namespace Engine

def report (e : Engine) (reports : List Report) : Engine :=
  { e with journal := e.journal ++ reports }

def scope (e : Engine) (n : NodeId) (implicit : List Context := []) : Scope :=
  ⟨e.tree, e.global, n, implicit⟩

def resolve (e : Engine) (id : String) (n : NodeId) : Option Value := (e.scope n).resolve id

def locate? (e : Engine) (id : String) (n : NodeId) : Option Location := e.tree.locate? id n

def createRoot (e : Engine) : NodeId × Engine :=
  let (n, tree) := e.tree.createRoot
  (n, { e with tree })

def addChild (e : Engine) (parent : NodeId) : Except Error NodeId × Engine :=
  match e.tree.addChild parent with
  | .ok (n, tree) => (.ok n, { e with tree })
  | .error error => (.error error, e)

def declareContext (e : Engine) (n : NodeId) (c : Context) : Except Error Unit × Engine :=
  let e := e.report [.contextDeclared n c.id]
  match e.tree.declare n c with
  | .ok tree => (.ok (), { e with tree })
  | .error error => (.error error, e)

def declareForm (e : Engine) (n : NodeId) (f : Form) : Except Error Unit × Engine :=
  if e.tree.contains n then
    (.ok (), { e with forms := Table.insert e.forms n f }.report [.formDeclared n])
  else (.error (.missingNode n), e)

def enclosingForm? (e : Engine) (n : NodeId) : Option (NodeId × Form) :=
  (e.tree.ancestors n).findSome? fun a => (Table.get? e.forms a).map (a, ·)

def forget (e : Engine) (n : NodeId) : Engine :=
  let (_, subscriptions, reports) := e.subscriptions.removeNode n
  { e with subscriptions, forms := Table.erase e.forms n }.report reports

def destroy (e : Engine) (n : NodeId) : List NodeId × Engine :=
  let e := (e.tree.subtree n).foldl forget e
  let (removed, tree) := e.tree.remove n
  let e := { e with tree }
  (removed, if removed.isEmpty then e else e.report [.subtreeDestroyed n removed.length])

def evaluate (e : Engine) (t : Template) (n : NodeId) (implicit : List Context := []) :
    Value × Engine :=
  let resolve := (e.scope n implicit).resolve
  (t.evaluate resolve, e.report ((t.misses resolve).map .unresolved))

def subscribe (e : Engine) (n : NodeId) (t : Template) (o : Observer) :
    Except Error Nat × Engine :=
  if e.tree.contains n then
    let (v, e) := e.evaluate t n
    let e := e.report [o.receive n v]
    let (id, subscriptions, reports) := e.subscriptions.insert ⟨n, t, v, o⟩
    (.ok id, { e with subscriptions }.report reports)
  else (.error (.missingNode n), e)

def attributeObserver (α : Type) [Attribute α] (name : String) : Observer :=
  ⟨name, fun v => (convert? α v).map fun a => (Attribute.write a).documented⟩

-- Delivers an attribute. One that is given is delivered once and needs no subscription.
def bind {α : Type} [Attribute α] (e : Engine) (n : NodeId) (x : Expression α)
    (name : String) : Except Error (Option Nat) × Engine :=
  match x with
  | .value a => (.ok none, e.report [.delivered name n (Attribute.write a).documented])
  | .binding t =>
    let (r, e) := e.subscribe n t (attributeObserver α name)
    (r.map some, e)

def unsubscribe (e : Engine) (id : Nat) : Bool × Engine :=
  let (removed, subscriptions, reports) := e.subscriptions.remove id
  (removed, { e with subscriptions }.report reports)

def notify (e : Engine) (id : String) (location : Location) : Nat × Engine :=
  let (k, subscriptions, reports) := e.subscriptions.notify e.tree e.global id location
  (k, { e with subscriptions }.report reports)

def setAt (e : Engine) (id : String) (v : Value) : Location → Engine
  | .global => { e with global := v }
  | .node n => { e with tree := e.tree.setContext n id v }

-- Changes the context `id` that is seen from `n`, or what is at the end of `path` in it. A value
-- that is equal to the one there is no change.
def setContext (e : Engine) (id : String) (path : Path) (v : Value) (n : NodeId) :
    Except Error Unit × Engine :=
  match e.locate? id n with
  | none => (.error (.unresolved id), e)
  | some location =>
    match (e.scope n).valueAt? id location with
    | none => (.error (.unresolved id), e)
    | some old =>
      if (old.get? path).any (·.equals v) then (.ok (), e.report [.unchanged])
      else
        match old.set path v with
        | .error c => (.error (.ofConflict c), e)
        | .ok new =>
          let changes := old.documented.changes [] new.documented
          let e := e.setAt id new location
          let e := e.report (.contextChanged id location :: changes.map .changed)
          (.ok (), (e.notify id location).2)

-- Hands a value over to the root of a screen, or puts it at the end of `path` in the value handed
-- over before.
def handOver (e : Engine) (root : NodeId) (path : Path) (v : Value) : Except Error Unit × Engine :=
  match e.tree.node? root with
  | none => (.error (.missingNode root), e)
  | some node =>
    -- the value is there from now on, even if the path does not fit
    let e := { e with tree := e.tree.setHandoff root (node.handoff.getD .null) }
    match (node.handoff.getD .null).set path v with
    | .error c => (.error (.ofConflict c), e)
    | .ok new =>
      let e := { e with tree := e.tree.setHandoff root new }
      (.ok (), ((e.report [.handedOver root]).notify handoffId (.node root)).2)

end Engine

end BindingEngine
