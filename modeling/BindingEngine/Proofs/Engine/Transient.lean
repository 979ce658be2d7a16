import BindingEngine.Proofs.Engine.Outside

namespace BindingEngine.Engine

variable {e e' e'' : Engine} {r n m root : NodeId} {id : String} {p : Path} {v : Value}

-- Two engines that hold the same, whatever was reported and however many nodes have come and gone.
structure SameContent (e e' : Engine) : Prop where
  node? (n : NodeId) : e'.tree.node? n = e.tree.node? n
  subscription? (i : Nat) :
    e'.subscriptions.subscription? i = e.subscriptions.subscription? i
  form? (n : NodeId) : Table.get? e'.forms n = Table.get? e.forms n
  global : e'.global = e.global
  baseUrl : e'.baseUrl = e.baseUrl

namespace SameContent

theorem refl (e : Engine) : SameContent e e :=
  ⟨fun _ => rfl, fun _ => rfl, fun _ => rfl, rfl, rfl⟩

theorem report (h : SameContent e e') (reports : List Report) : SameContent e (e'.report reports) :=
  ⟨h.node?, h.subscription?, h.form?, h.global, h.baseUrl⟩

variable (h : SameContent e e')

include h

theorem contains (n : NodeId) : e'.tree.contains n = e.tree.contains n := by
  simp only [Tree.contains, h.node?]

theorem context? (n : NodeId) (id : String) : e'.tree.context? n id = e.tree.context? n id := by
  simp only [Tree.context?, h.node?]

theorem resolve (id : String) (n : NodeId) : e'.resolve id n = e.resolve id n := by
  have hl : e'.locate? id n = e.locate? id n := by
    simp only [Engine.locate?, Tree.locate?, Tree.ancestors, h.node?, h.context?]
  simp only [resolve_eq, hl]
  refine Option.bind_congr fun l hl => ?_
  cases l
  case global => exact congrArg some h.global
  case node a => exact h.context? a id

end SameContent

def Operation.SparesRoots (e : Engine) : Operation → Prop
  | .createRoot => False
  | .destroy n => ¬e.tree.IsRoot n
  | _ => True

theorem Operation.Below.sparesRoots {op : Operation} (h : op.Below e r) : op.SparesRoots e := by
  cases op
  case createRoot => exact h
  case destroy n =>
    have h : (Tree.Operation.remove n).Below e.tree r := h
    exact h.sparesRoots
  all_goals trivial

theorem isRoot_apply (f : e.tree.Forest) {op : Operation} (h : op.SparesRoots e) :
    (e.apply op).tree.IsRoot n ↔ e.tree.IsRoot n := by
  rcases tree_apply e op with he | ⟨change, he, hc, hr, -⟩
  case inl => rw [he]
  case inr =>
    rw [he]
    refine Tree.isRoot_apply f ?_
    cases change
    case createRoot =>
      cases hc rfl
      exact h
    case remove m =>
      cases hr m rfl
      exact h
    all_goals trivial

theorem ancestors_handOver : (e.handOver root p v).2.tree.ancestors n = e.tree.ancestors n := by
  have hh := handingOver e root p v
  generalize (e.handOver root p v).1 = outcome at hh
  generalize (e.handOver root p v).2 = e' at hh ⊢
  cases hh
  case missing => rfl
  case conflict => exact Tree.ancestors_setHandoff
  case done => exact Tree.ancestors_setHandoff.trans Tree.ancestors_setHandoff

abbrev Through (allowed : Engine → Operation → Prop) : Engine → Engine → Prop :=
  Relation.ReflTransGen fun e e' => ∃ op, allowed e op ∧ e' = e.apply op

namespace Through

variable {allowed : Engine → Operation → Prop}

theorem leads (h : Through allowed e e') : Leads e e' := by
  refine Relation.ReflTransGen.mono (fun e e' hs => ?_) _ _ h
  obtain ⟨op, _, rfl⟩ := hs
  exact .operation e op

theorem isRoot_iff (h : Through allowed e e') (hs : Sound e)
    (ha : ∀ {e op}, allowed e op → op.SparesRoots e) : e'.tree.IsRoot n ↔ e.tree.IsRoot n := by
  induction h
  case refl => rfl
  case tail h hst hi =>
    obtain ⟨op, ho, rfl⟩ := hst
    exact (isRoot_apply ((leads h).sound hs).forest (ha ho)).trans hi

theorem sameOutside (h : Through allowed e e') (hs : Sound e)
    (ha : ∀ {e op}, allowed e op → op.Below e r) : SameOutside r e e' := by
  induction h
  case refl => exact .refl r _
  case tail h hst hi =>
    obtain ⟨op, ho, rfl⟩ := hst
    exact hi.trans (sameOutside_apply ((leads h).sound hs) (ha ho))

theorem destroyAll (e : Engine) (ns : List NodeId) :
    Through (fun _ _ => True) e (ns.foldl (fun e n => (e.destroy n).2) e) := by
  induction ns generalizing e
  case nil => exact .refl
  case cons n ns hi => exact .head ⟨.destroy n, trivial, rfl⟩ (hi _)

end Through

theorem sameContent_destroy (h : Sound e) (h' : Sound e')
    (ho : SameOutside e.createRoot.1 e.createRoot.2 e') (hr : e'.tree.IsRoot e.createRoot.1) :
    SameContent e (e'.destroy e.createRoot.1).2 := by
  generalize he : e.createRoot.1 = root at ho hr
  have hn {m : NodeId} (hm : e.tree.contains m) : root ∉ e.createRoot.2.tree.ancestors m := by
    obtain ⟨d, hd⟩ := Tree.contains_iff.mp hm
    exact he ▸ ((Tree.outside_createRoot h.forest).mpr hd).2
  obtain ⟨_, _, hd⟩ := destroy_eq e' root
  constructor
  case node? =>
    intro m
    refine Option.ext fun d => ?_
    rw [tree_destroy, Tree.outside_remove h'.forest hr, ho.tree m d, ← he]
    exact Tree.outside_createRoot h.forest
  case subscription? =>
    intro i
    refine Option.ext fun s => ?_
    rw [subscription?_destroy h'.forest h'.indexed, Option.filter_eq_some_iff, decide_eq_true_eq]
    exact (ho.subscription? i s).trans (and_iff_left_of_imp fun hs => hn (h.live hs))
  case form? =>
    intro m
    refine Option.ext fun form => ?_
    rw [form?_destroy h'.forest, Option.ite_none_left_eq_some, and_comm]
    exact (ho.form? m form).trans (and_iff_left_of_imp fun hf => hn (h.formed hf))
  case global => rw [hd, ho.global]; rfl
  case baseUrl => rw [hd, ho.baseUrl]; rfl

end BindingEngine.Engine
