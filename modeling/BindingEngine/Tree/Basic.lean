import BindingEngine.Error
import BindingEngine.Scope.Context

namespace BindingEngine

structure Node where
  -- The ancestors, the parent first.
  lineage : List NodeId := []
  children : List NodeId := []
  -- The context that the node declares.
  context : Option Context := none
  -- The value handed over to the screen of which the node is the root.
  handoff : Option Value := none

structure Slot where
  generation : Nat
  node : Option Node

structure Tree where
  slots : Array Slot := #[]
  -- The slots without a node, the one freed last first.
  free : List Nat := []

namespace Tree

def node? (t : Tree) (n : NodeId) : Option Node :=
  match t.slots[n.index]? with
  | some slot => if slot.generation = n.generation then slot.node else none
  | none => none

def contains (t : Tree) (n : NodeId) : Bool := (t.node? n).isSome

def parent? (t : Tree) (n : NodeId) : Option NodeId := (t.node? n).bind (·.lineage.head?)

def children (t : Tree) (n : NodeId) : List NodeId :=
  match t.node? n with
  | some node => node.children
  | none => []

def ancestors (t : Tree) (n : NodeId) : List NodeId :=
  match t.node? n with
  | some node => n :: node.lineage
  | none => []

def size (t : Tree) : Nat := t.slots.countP (·.node.isSome)

def isEmpty (t : Tree) : Bool := t.size = 0

def modify (t : Tree) (n : NodeId) (f : Node → Node) : Tree :=
  match t.node? n with
  | some node => { t with slots := t.slots.setIfInBounds n.index ⟨n.generation, some (f node)⟩ }
  | none => t

-- Puts a node into the slot freed last, or into a new one.
def insert (t : Tree) (node : Node) : NodeId × Tree :=
  match t.free with
  | index :: free =>
    let generation := match t.slots[index]? with
      | some slot => slot.generation + 1
      | none => 0
    (⟨index, generation⟩,
      { slots := t.slots.setIfInBounds index ⟨generation, some node⟩, free })
  | [] => (⟨t.slots.size, 0⟩, { t with slots := t.slots.push ⟨0, some node⟩ })

def createRoot (t : Tree) : NodeId × Tree := t.insert {}

def addChild (t : Tree) (parent : NodeId) : Except Error (NodeId × Tree) :=
  match t.node? parent with
  | none => .error (.missingNode parent)
  | some node =>
    let (child, t) := t.insert { lineage := parent :: node.lineage }
    .ok (child, t.modify parent fun node => { node with children := node.children ++ [child] })

def declare (t : Tree) (n : NodeId) (c : Context) : Except Error Tree :=
  if isReserved c.id then .error (.reserved c.id)
  else
    match t.node? n with
    | none => .error (.missingNode n)
    | some node =>
      match node.context with
      | some declared => .error (.alreadyDeclared n declared.id)
      | none => .ok (t.modify n fun node => { node with context := some c })

def context? (t : Tree) (n : NodeId) (id : String) : Option Value :=
  match t.node? n with
  | none => none
  | some node =>
    if id = handoffId then node.handoff
    else
      match node.context with
      | some c => if c.id = id then some c.value else none
      | none => none

def setContext (t : Tree) (n : NodeId) (id : String) (v : Value) : Tree :=
  if (t.context? n id).isNone then t
  else if id = handoffId then t.modify n fun node => { node with handoff := some v }
  else t.modify n fun node => { node with context := some ⟨id, v⟩ }

def setHandoff (t : Tree) (n : NodeId) (v : Value) : Tree :=
  t.modify n fun node => { node with handoff := some v }

-- The nodes below `n` and then `n`, in the order of the children. No node is further below than
-- there are slots, so that is the `fuel`.
def below (t : Tree) : Nat → NodeId → List NodeId
  | 0, _ => []
  | fuel + 1, n => (t.children n).flatMap (below t fuel) ++ [n]

def subtree (t : Tree) (n : NodeId) : List NodeId :=
  if t.contains n then t.below t.slots.size n else []

def release (t : Tree) (n : NodeId) : Tree :=
  match t.slots[n.index]? with
  | some slot =>
    { slots := t.slots.setIfInBounds n.index { slot with node := none }
      free := n.index :: t.free }
  | none => t

def remove (t : Tree) (n : NodeId) : List NodeId × Tree :=
  let removed := t.subtree n
  let t := match t.parent? n with
    | some parent =>
      t.modify parent fun node => { node with children := node.children.filter (· ≠ n) }
    | none => t
  (removed, removed.foldl release t)

end Tree

end BindingEngine
