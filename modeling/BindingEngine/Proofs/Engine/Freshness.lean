import Mathlib.Data.List.Induction
import BindingEngine.Proofs.Engine.Delivery

namespace BindingEngine.Engine

-- An operation reaches a subscription when it changes a context that the template reads where it is seen
-- from the node, when it makes such a change known, or when it declares a context that comes to be seen
-- in place of another one or of none.
def Reaches (e : Engine) (s : Subscription) : Operation → Prop
  | .setContext id p v n =>
    e.Changes id p v n ∧ id ∈ s.template.contextIds ∧ e.locate? id s.node = e.locate? id n
  | .notify id l => id ∈ s.template.contextIds ∧ e.locate? id s.node = some l
  | .declareContext n x => (e.declareContext n x).1 = .ok () ∧ x.id ∈ s.template.contextIds ∧
    (e.declareContext n x).2.locate? x.id s.node = some (.node n)
  | _ => False

def Untouched (e : Engine) (s : Subscription) : List Operation → Prop
  | [] => True
  | op :: ops => ¬e.Reaches s op ∧ (e.apply op).Untouched s ops

variable {e e' : Engine} {id : String} {n m p : NodeId} {l : Location} {i : Nat} {x : Context}
variable {v : Value} {s s' : Subscription} {op : Operation} {ops : List Operation}

section Views

variable (h : Consistent e)

include h

end Views

section Subscriptions

variable {t : Template} {o : Observer} {q : Path}

end Subscriptions

section Steps

variable (h : Consistent e)

include h

end Steps

section Runs

variable {global : Value} {baseUrl : Option String}

theorem Consistent.run (h : Consistent e) (ops : List Operation) : Consistent (e.run ops) := by
  induction ops generalizing e
  case nil => exact h
  case cons op ops hi => exact hi (h.apply op)

def shadowed : Subscription :=
  ⟨⟨1, 0⟩, readsX, .int 1, { name := "a" }⟩

end Runs

end BindingEngine.Engine
