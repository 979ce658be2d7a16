import BindingEngine.Proofs.Engine.Reachable

namespace BindingEngine.Engine

def shows (e : Engine) (s : Subscription) : Value :=
  (e.evaluate s.template s.node).1

variable {e e' : Engine} {id : String} {n : NodeId} {l : Location} {p : Path} {i : Nat}
variable {v old new : Value} {s : Subscription}

structure Placed (e : Engine) (id : String) (l : Location) (e₁ : Engine) : Prop where
  consistent : Consistent e → Consistent e₁
  subscriptions : e₁.subscriptions = e.subscriptions
  locate? (id' : String) (n : NodeId) : e₁.locate? id' n = e.locate? id' n
  shows {s : Subscription} :
    ¬(id ∈ s.template.contextIds ∧ e.locate? id s.node = some l) → e₁.shows s = e.shows s
  quiet : ∃ reports, (∀ r ∈ reports, ¬r.isUpdating) ∧ e₁.journal = e.journal ++ reports

section Notification

variable (h : Consistent e) (hs : e.subscriptions.subscription? i = some s)

include h hs

theorem subscription?_notify (id : String) (l : Location) :
    (e.notify id l).2.subscriptions.subscription? i = some (s.notified e.tree e.global id l) := by
  refine (Registry.subscription?_notify h.forest h.indexed).trans ?_
  rw [hs, Option.map_some]

theorem calls_notify (id : String) (l : Location) : ∃ reports,
    (e.notify id l).2.journal = e.journal ++ reports ∧
    (Report.calls reports).filter (·.1 = i) =
      if s.Due e.tree e.global id l then [(i, e.shows s, s.observer.receive s.node (e.shows s))]
      else [] :=
  ⟨_, rfl, Registry.calls_notify_of h.forest h.indexed hs⟩

end Notification

def readsX : Template :=
  ⟨"@\x7bx\x7d", [.binding (.read "x" [])]⟩

end BindingEngine.Engine
