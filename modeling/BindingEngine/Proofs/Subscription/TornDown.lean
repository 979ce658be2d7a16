import BindingEngine.Proofs.Tree.Handle
import BindingEngine.Proofs.Subscription.Propagation

namespace BindingEngine

structure Watched where
  tree : Tree := {}
  registry : Registry := {}

namespace Watched

inductive Operation
  | tree (op : Tree.Operation)
  | insert (s : Subscription)
  | remove (i : Nat)
  | removeNode (n : NodeId)
  | notify (g : Value) (id : String) (l : Location)

def apply (w : Watched) : Operation → Watched
  | .tree op => { w with tree := op.apply w.tree }
  | .insert s => { w with registry := (w.registry.insert s).2.1 }
  | .remove i => { w with registry := (w.registry.remove i).2.1 }
  | .removeNode n => { w with registry := (w.registry.removeNode n).2.1 }
  | .notify g id l => { w with registry := (w.registry.notify w.tree g id l).2.1 }

def run (w : Watched) (ops : List Operation) : Watched :=
  ops.foldl apply w

def calls (w : Watched) (g : Value) (id : String) (l : Location) (i : Nat) :
    List (Nat × Value × Report) :=
  (Report.calls (w.registry.notify w.tree g id l).2.2).filter (·.1 = i)

structure Valid (w : Watched) : Prop where
  forest : w.tree.Forest
  indexed : w.registry.Indexed

variable {w : Watched} {n m : NodeId} {s : Subscription} {t : Tree} {g : Value} {id : String}
variable {l : Location} {i : Nat}

theorem Valid.empty : Valid {} :=
  ⟨.empty, .empty⟩

theorem Valid.apply (h : w.Valid) : (op : Operation) → (w.apply op).Valid
  | .tree op => ⟨op.forest h.forest, h.indexed⟩
  | .insert s => ⟨h.forest, h.indexed.insert s⟩
  | .remove i => ⟨h.forest, h.indexed.remove i⟩
  | .removeNode n => ⟨h.forest, h.indexed.removeNode n⟩
  | .notify g id l => ⟨h.forest, h.indexed.notify h.forest g id l⟩

theorem Valid.run (h : w.Valid) (ops : List Operation) : (w.run ops).Valid := by
  induction ops generalizing w
  case nil => exact h
  case cons op ops hi => exact hi (h.apply op)

end Watched

end BindingEngine
