import BindingEngine.Tree.Basic

namespace BindingEngine

inductive Location where
  | node (n : NodeId)
  | global
deriving DecidableEq

def Location.text : Location → String
  | node n => "node " ++ n.text
  | global => "global"

namespace Tree

def locate? (t : Tree) (id : String) (n : NodeId) : Option Location :=
  if id = globalId then some .global
  else ((t.ancestors n).find? fun a => (t.context? a id).isSome).map .node

end Tree

structure Scope where
  tree : Tree
  global : Value
  node : NodeId
  implicit : List Context := []

namespace Scope

def locate? (s : Scope) (id : String) : Option Location := s.tree.locate? id s.node

def valueAt? (s : Scope) (id : String) : Location → Option Value
  | .global => some s.global
  | .node n => s.tree.context? n id

def resolve (s : Scope) : Resolver := fun id =>
  match s.implicit.find? (·.id = id) with
  | some c => some c.value
  | none => (s.locate? id).bind (s.valueAt? id)

end Scope

end BindingEngine
