import BindingEngine.Report
import BindingEngine.Scope.Locations
import BindingEngine.Template.Basic

namespace BindingEngine

structure Observer where
  name : String
  convert : Value → Option Value := some

-- What a value means to an observer. One that cannot be converted is not delivered.
def Observer.receive (o : Observer) (node : NodeId) (v : Value) : Report :=
  match o.convert v with
  | some v => .delivered o.name node v
  | none => .notConvertible

structure Subscription where
  node : NodeId
  template : Template
  -- The value that the observer heard of last.
  last : Value
  observer : Observer

structure Registry where
  nextId : Nat := 0
  entries : Table Nat Subscription := []
  byContext : Table String (List Nat) := []
  byNode : Table NodeId (List Nat) := []

namespace Registry

section

variable {α : Type} [DecidableEq α]

def enlist (index : Table α (List Nat)) (key : α) (id : Nat) : Table α (List Nat) :=
  Table.insert index key ((Table.get? index key).getD [] ++ [id])

def strike (index : Table α (List Nat)) (key : α) (id : Nat) : Table α (List Nat) :=
  match Table.get? index key with
  | none => index
  | some ids =>
    let ids := ids.filter (· ≠ id)
    if ids.isEmpty then Table.erase index key else Table.insert index key ids

end

def size (r : Registry) : Nat := r.entries.length

def count (r : Registry) (n : NodeId) : Nat := ((Table.get? r.byNode n).getD []).length

def insert (r : Registry) (s : Subscription) : Nat × Registry × List Report :=
  let id := r.nextId
  (id,
    { nextId := id + 1
      entries := Table.insert r.entries id s
      byContext := s.template.contextIds.foldl (fun index c => enlist index c id) r.byContext
      byNode := enlist r.byNode s.node id },
    [.subscriptionCreated id s.node s.template.source])

def remove (r : Registry) (id : Nat) : Bool × Registry × List Report :=
  match Table.get? r.entries id with
  | none => (false, r, [])
  | some s =>
    (true,
      { r with
        entries := Table.erase r.entries id
        byContext := s.template.contextIds.foldl (fun index c => strike index c id) r.byContext
        byNode := strike r.byNode s.node id },
      [.subscriptionRemoved id s.node])

def removeNode (r : Registry) (n : NodeId) : Nat × Registry × List Report :=
  ((Table.get? r.byNode n).getD []).foldl
    (fun (k, r, reports) id =>
      let (removed, r, more) := r.remove id
      (if removed then k + 1 else k, r, reports ++ more))
    (0, r, [])

structure Update where
  entries : Table Nat Subscription
  locations : Locations
  reports : List Report := []
  -- The number of values passed on to observers.
  delivered : Nat := 0

-- Asks a subscription again if the context that changed, at `location`, is the one it sees. Its
-- observer hears of the value if it is not equal to the one it heard of last.
def Update.step (tree : Tree) (global : Value) (location : Location) (u : Update) (id : Nat) :
    Update :=
  match Table.get? u.entries id with
  | none => u
  | some s =>
    let (found, locations) := u.locations.locate? tree s.node
    let u := { u with locations }
    if found ≠ some location then u
    else
      let resolve := (Scope.mk tree global s.node []).resolve
      let v := s.template.evaluate resolve
      let reports := u.reports ++ (s.template.misses resolve).map .unresolved
      if v.equals s.last then { u with reports }
      else
        { u with
          entries := Table.insert u.entries id { s with last := v }
          reports := reports ++ [.updating id v, s.observer.receive s.node v]
          delivered := u.delivered + 1 }

-- Updates the subscriptions that see the context `id` at `location` and says how many there was
-- something new for.
def notify (r : Registry) (tree : Tree) (global : Value) (id : String) (location : Location) :
    Nat × Registry × List Report :=
  let candidates := (Table.get? r.byContext id).getD []
  let u := candidates.foldl (Update.step tree global location) ⟨r.entries, { id }, [], 0⟩
  (u.delivered, { r with entries := u.entries }, u.reports)

end Registry

end BindingEngine
