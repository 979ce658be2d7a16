import BindingEngine.Proofs.Engine.Mutation
import BindingEngine.Proofs.Subscription.Propagation

namespace BindingEngine.Engine

inductive Operation : Type 1
  | createRoot
  | addChild (p : NodeId)
  | declareContext (n : NodeId) (x : Context)
  | declareForm (n : NodeId) (form : Form)
  | destroy (n : NodeId)
  | evaluate (t : Template) (n : NodeId) (implicit : List Context)
  | subscribe (n : NodeId) (t : Template) (o : Observer)
  | bind {α : Type} [Attribute α] (n : NodeId) (x : Expression α) (name : String)
  | unsubscribe (i : Nat)
  | setContext (id : String) (p : Path) (v : Value) (n : NodeId)
  | notify (id : String) (l : Location)

def apply (e : Engine) : Operation → Engine
  | .createRoot => e.createRoot.2
  | .addChild p => (e.addChild p).2
  | .declareContext n x => (e.declareContext n x).2
  | .declareForm n form => (e.declareForm n form).2
  | .destroy n => (e.destroy n).2
  | .evaluate t n implicit => (e.evaluate t n implicit).2
  | .subscribe n t o => (e.subscribe n t o).2
  | @Operation.bind _ _ n x name => (e.bind n x name).2
  | .unsubscribe i => (e.unsubscribe i).2
  | .setContext id p v n => (e.setContext id p v n).2
  | .notify id l => (e.notify id l).2

def run (e : Engine) (ops : List Operation) : Engine :=
  ops.foldl apply e

def start (global : Value) (baseUrl : Option String) : Engine :=
  { global, baseUrl }

-- What becomes of an engine by its operations, and by the values that screens hand over to each other.
inductive Reachable : Engine → Prop
  | start (global : Value) (baseUrl : Option String) : Reachable (start global baseUrl)
  | operation {e : Engine} (op : Operation) : Reachable e → Reachable (e.apply op)
  | handOver {e : Engine} (root : NodeId) (p : Path) (v : Value) :
    Reachable e → Reachable (e.handOver root p v).2

theorem Reachable.run {e : Engine} (h : Reachable e) (ops : List Operation) :
    Reachable (e.run ops) := by
  induction ops generalizing e
  case nil => exact h
  case cons op ops hi => exact hi (h.operation op)

structure Consistent (e : Engine) : Prop where
  forest : e.tree.Forest
  indexed : e.subscriptions.Indexed
  live {i : Nat} {s : Subscription} : e.subscriptions.subscription? i = some s → e.tree.contains s.node

variable {e : Engine} {n p : NodeId} {x : Context} {t : Template} {o : Observer}

section Effects

theorem addChild_eq : (e.addChild p).2 =
    { e with tree := (Tree.Operation.addChild p).apply e.tree } := by
  simp only [addChild, Tree.Operation.apply]
  cases e.tree.addChild p <;> rfl

theorem declareContext_eq : (e.declareContext n x).2 =
    { e.report [.contextDeclared n x.id] with
      tree := (Tree.Operation.declare n x).apply e.tree } := by
  simp only [declareContext, Tree.Operation.apply, report]
  cases e.tree.declare n x <;> rfl

theorem declareForm_eq (e : Engine) (n : NodeId) (form : Form) : ∃ forms journal,
    (e.declareForm n form).2 = { e with forms, journal } := by
  unfold declareForm
  split
  case isTrue => exact ⟨_, _, rfl⟩
  case isFalse => exact ⟨_, _, rfl⟩

theorem subscribe_eq_of_contains (h : e.tree.contains n) : ∃ journal, (e.subscribe n t o).2 =
    { e with
      subscriptions := (e.subscriptions.insert ⟨n, t, (e.evaluate t n).1, o⟩).2.1
      journal } := by
  simp only [subscribe, h, if_true]
  exact ⟨_, rfl⟩

theorem subscribe_eq_of_not_contains (h : ¬e.tree.contains n) : (e.subscribe n t o).2 = e := by
  simp only [subscribe, h, Bool.false_eq_true, if_false]

theorem foldl_forget_eq (e : Engine) (ns : List NodeId) : ∃ forms journal, ns.foldl forget e =
    { e with
      subscriptions := ns.foldl (fun r m => (r.removeNode m).2.1) e.subscriptions
      forms
      journal } := by
  induction ns generalizing e
  case nil => exact ⟨_, _, rfl⟩
  case cons m ns hi =>
    obtain ⟨forms, journal, h⟩ := hi (e.forget m)
    exact ⟨forms, journal, h⟩

theorem destroy_eq (e : Engine) (n : NodeId) : ∃ forms journal, (e.destroy n).2 =
    { e with
      tree := (e.tree.remove n).2
      subscriptions := (e.tree.subtree n).foldl (fun r m => (r.removeNode m).2.1) e.subscriptions
      forms
      journal } := by
  obtain ⟨forms, journal, h⟩ := foldl_forget_eq e (e.tree.subtree n)
  simp only [destroy, h]
  split
  case isTrue => exact ⟨_, _, rfl⟩
  case isFalse => exact ⟨_, _, rfl⟩

theorem subscription?_destroy (f : e.tree.Forest) (h : e.subscriptions.Indexed) {i : Nat} :
    (e.destroy n).2.subscriptions.subscription? i =
      (e.subscriptions.subscription? i).filter fun s => n ∉ e.tree.ancestors s.node := by
  obtain ⟨_, _, he⟩ := destroy_eq e n
  rw [he]
  refine (Registry.subscription?_foldl_removeNode h).trans ?_
  simp only [f.mem_subtree_iff]

end Effects

namespace Consistent

theorem start (global : Value) (baseUrl : Option String) : Consistent (start global baseUrl) where
  forest := .empty
  indexed := .empty
  live h := by simp [Registry.subscription?, Engine.start] at h

variable (h : Consistent e)

include h

theorem tree (op : Tree.Operation) (ho : ∀ p, op ≠ .remove p) :
    Consistent { e with tree := op.apply e.tree } where
  forest := op.forest h.forest
  indexed := h.indexed
  live hs := op.contains_apply h.forest (h.live hs) fun p hp => absurd hp (ho p)

theorem report (reports : List Report) : Consistent (e.report reports) :=
  ⟨h.forest, h.indexed, h.live⟩

theorem notify (id : String) (l : Location) : Consistent (e.notify id l).2 where
  forest := h.forest
  indexed := h.indexed.notify h.forest e.global id l
  live hs := by
    have hs := (Registry.subscription?_notify h.forest h.indexed).symm.trans hs
    obtain ⟨s₀, hs₀, hs⟩ := Option.map_eq_some_iff.mp hs
    rw [← hs, Subscription.notified_node]
    exact h.live hs₀

theorem destroy (n : NodeId) : Consistent (e.destroy n).2 := by
  have hd {i : Nat} := subscription?_destroy h.forest h.indexed (n := n) (i := i)
  obtain ⟨_, _, he⟩ := destroy_eq e n
  rw [he] at hd ⊢
  refine ⟨h.forest.remove n, h.indexed.foldl_removeNode _, fun {i s} hs => ?_⟩
  -- whoever is still subscribed is not on a node that is removed
  obtain ⟨hs, hn⟩ := Option.filter_eq_some_iff.mp (hd.symm.trans hs)
  exact Tree.Operation.contains_apply h.forest (h.live hs) (.remove n)
    fun p hp => Tree.Operation.remove.inj hp ▸ of_decide_eq_true hn

theorem subscribe (n : NodeId) (t : Template) (o : Observer) :
    Consistent (e.subscribe n t o).2 := by
  by_cases hn : e.tree.contains n
  case neg => rwa [subscribe_eq_of_not_contains hn]
  case pos =>
    obtain ⟨_, he⟩ := subscribe_eq_of_contains hn (t := t) (o := o)
    rw [he]
    refine ⟨h.forest, h.indexed.insert _, fun {i s} hs => ?_⟩
    have hs := Registry.subscription?_insert.symm.trans hs
    split at hs
    case isTrue => exact Option.some.inj hs ▸ hn
    case isFalse => exact h.live hs

theorem unsubscribe (i : Nat) : Consistent (e.unsubscribe i).2 where
  forest := h.forest
  indexed := h.indexed.remove i
  live hs := by
    have hs := Registry.subscription?_remove.symm.trans hs
    split at hs
    case isTrue => contradiction
    case isFalse => exact h.live hs

theorem setAt (id : String) (v : Value) (l : Location) : Consistent (e.setAt id v l) := by
  cases l
  case global => exact ⟨h.forest, h.indexed, h.live⟩
  case node n => exact h.tree (.setContext n id v) (by simp)

theorem setContext (id : String) (p : Path) (v : Value) (n : NodeId) :
    Consistent (e.setContext id p v n).2 := by
  have hm := mutation e id p v n
  generalize (e.setContext id p v n).1 = r at hm
  generalize (e.setContext id p v n).2 = e' at hm ⊢
  cases hm
  case invisible => exact h
  case unchanged => exact h.report _
  case conflict => exact h
  case changed l old new _ _ _ _ =>
    exact ((h.setAt id new l).report _).notify id l

theorem handOver (root : NodeId) (p : Path) (v : Value) :
    Consistent (e.handOver root p v).2 := by
  unfold Engine.handOver
  split
  case h_1 => exact h
  case h_2 node hn =>
    have hs := h.tree (.setHandoff root (node.handoff.getD .null)) (by simp)
    split
    case h_1 => exact hs
    case h_2 new _ =>
      have hs := hs.tree (.setHandoff root new) (by simp)
      exact (hs.report _).notify handoffId (.node root)

theorem apply (op : Operation) : Consistent (e.apply op) := by
  cases op
  case createRoot => exact h.tree .createRoot (by simp)
  case addChild p =>
    rw [Engine.apply, addChild_eq]
    exact h.tree (.addChild p) (by simp)
  case declareContext n x =>
    rw [Engine.apply, declareContext_eq]
    exact (h.report _).tree (.declare n x) (by simp)
  case declareForm n form =>
    obtain ⟨_, _, he⟩ := declareForm_eq e n form
    rw [Engine.apply, he]
    exact ⟨h.forest, h.indexed, h.live⟩
  case destroy n => exact h.destroy n
  case evaluate => exact h.report _
  case subscribe n t o => exact h.subscribe n t o
  case bind n x name =>
    cases x
    case value => exact h.report _
    case binding t => exact h.subscribe n t _
  case unsubscribe i => exact h.unsubscribe i
  case setContext id p v n => exact h.setContext id p v n
  case notify id l => exact h.notify id l

end Consistent

theorem Reachable.consistent (h : Reachable e) : Consistent e := by
  induction h
  case start global baseUrl => exact .start global baseUrl
  case operation op _ hi => exact hi.apply op
  case handOver root p v _ hi => exact hi.handOver root p v

end BindingEngine.Engine
