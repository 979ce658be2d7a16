import BindingEngine.Proofs.Engine.Transient

namespace BindingEngine.Engine

variable {e e' e'' : Engine} {root n m : NodeId} {id : String} {p : Path} {v : Value}

section Roots

theorem resolve_handoff (h : e.tree.IsRoot n) :
    e.resolve handoffId n = e.tree.context? n handoffId := by
  have hl : e.locate? handoffId n = _ := Tree.locate?_of_ne (by decide)
  rw [resolve_eq, hl, Tree.isRoot_iff.mp h]
  cases hc : e.tree.context? n handoffId
  case none => simp [hc]
  case some => simp [hc, Scope.valueAt?, scope]

theorem isSome_handoff_of_apply (h : Sound e) (op : Operation)
    (hm : ((e.apply op).tree.context? m handoffId).isSome) :
    (e.tree.context? m handoffId).isSome := by
  rcases tree_apply e op with he | ⟨change, he, _, _, hn⟩
  case inl => exact he ▸ hm
  case inr => exact Tree.isSome_handoff_of_apply h.forest hn (he ▸ hm)

theorem Through.isSome_handoff {allowed : Engine → Operation → Prop} (h : Sound e)
    (ht : Through allowed e e') (hm : (e'.tree.context? m handoffId).isSome) :
    (e.tree.context? m handoffId).isSome := by
  induction ht
  case refl => exact hm
  case tail ht hst hi =>
    obtain ⟨op, _, rfl⟩ := hst
    exact hi (isSome_handoff_of_apply ((leads ht).sound h) op hm)

theorem resolve_handoff_eq_none (h : ∀ a ∈ e.tree.ancestors m, e.tree.context? a handoffId = none) :
    e.resolve handoffId m = none := by
  have hl : e.locate? handoffId m = none := Tree.locate?_eq_none_iff.mpr ⟨by decide, h⟩
  rw [resolve_eq, hl, Option.bind_none]

end Roots

-- Whoever stays keeps what it holds, and the global context is kept.
structure Keeps (e e' : Engine) : Prop where
  later : Tree.Later e.tree e'.tree
  global : e'.global = e.global
  context? {m : NodeId} (id : String) : e.tree.contains m → e'.tree.contains m →
    e'.tree.context? m id = e.tree.context? m id

namespace Keeps

theorem refl (h : Sound e) : Keeps e e :=
  ⟨.refl h.forest, rfl, fun _ _ _ => rfl⟩

theorem trans (h : Keeps e e') (h' : Keeps e' e'') : Keeps e e'' where
  later := h.later.trans h'.later
  global := h'.global.trans h.global
  context? {m} id hm hm'' := by
    have hm' : e'.tree.contains m := by
      refine Classical.byContradiction fun hn => ?_
      exact (h'.later.spent (h.later.spent_of_not_contains hm hn)).not_contains hm''
    exact (h'.context? id hm' hm'').trans (h.context? id hm hm')

theorem report (h : Keeps e e') (reports : List Report) : Keeps e (e'.report reports) :=
  ⟨h.later, h.global, h.context?⟩

theorem destroy (h : Sound e) (n : NodeId) : Keeps e (e.destroy n).2 where
  later := Leads.later (.single (.operation e (.destroy n))) h
  global := by
    obtain ⟨_, _, he⟩ := destroy_eq e n
    rw [he]
  context? {m} id hm hm' := by
    rw [tree_destroy] at hm' ⊢
    have hn : n ∉ e.tree.ancestors m := fun hn => by
      rw [← Tree.ancestors_ne_nil_iff, Tree.ancestors_remove h.forest, if_pos hn] at hm'
      exact hm' rfl
    exact (h.forest.sameView_remove hn).context? id (Tree.mem_ancestors_self hm)

theorem destroyAll (h : Sound e) (roots : List NodeId) :
    Keeps e (roots.foldl (fun e root => (e.destroy root).2) e) := by
  induction roots generalizing e
  case nil => exact .refl h
  case cons root roots hi => exact (Keeps.destroy h root).trans (hi (h.destroy root))

theorem of_sameOutside (h : Sound e) (hl : Tree.Later e.tree e'.tree)
    (ho : SameOutside e.createRoot.1 e.createRoot.2 e') : Keeps e e' where
  later := hl
  global := ho.global
  context? {m} id hm _ := by
    obtain ⟨d, hd⟩ := Tree.contains_iff.mp hm
    have hd' := ((ho.tree m d).mpr ((Tree.outside_createRoot h.forest).mpr hd)).1
    rw [Tree.context?_eq, Tree.context?_eq, hd, hd']

end Keeps

theorem ancestors_destroyAll (h : Sound e) (roots : List NodeId) :
    (roots.foldl (fun e root => (e.destroy root).2) e).tree.ancestors m =
      if ∃ root ∈ roots, root ∈ e.tree.ancestors m then [] else e.tree.ancestors m := by
  induction roots generalizing e
  case nil => simp
  case cons root roots hi =>
    rw [List.foldl_cons, hi (h.destroy root), tree_destroy, Tree.ancestors_remove h.forest]
    by_cases hr : root ∈ e.tree.ancestors m <;> simp [hr]

theorem isRoot_destroyAll (h : Sound e) {roots : List NodeId} (hn : n ∉ roots) :
    (roots.foldl (fun e root => (e.destroy root).2) e).tree.IsRoot n ↔ e.tree.IsRoot n := by
  induction roots generalizing e
  case nil => rfl
  case cons root roots hi =>
    obtain ⟨hne, hn⟩ := not_or.mp (mt List.mem_cons.mpr hn)
    refine (hi (h.destroy root) hn).trans ?_
    rw [tree_destroy, Tree.isRoot_remove h.forest]
    exact and_iff_left hne

section HandOver

theorem context?_handOver (hm : m = root → id ≠ handoffId) :
    (e.handOver root p v).2.tree.context? m id = e.tree.context? m id := by
  have hn : ¬(m = root ∧ id = handoffId) := fun h => hm h.1 h.2
  have hh := handingOver e root p v
  generalize (e.handOver root p v).1 = r at hh
  generalize (e.handOver root p v).2 = e' at hh ⊢
  cases hh
  case missing => rfl
  case conflict hc _ => exact (Tree.context?_setHandoff hc).trans (if_neg hn)
  case done hc _ =>
    refine (Tree.context?_setHandoff ?_).trans ((if_neg hn).trans ?_)
    case refine_1 => exact Tree.contains_modify.trans hc
    case refine_2 => exact (Tree.context?_setHandoff hc).trans (if_neg hn)

theorem contains_handOver : (e.handOver root p v).2.tree.contains m = e.tree.contains m := by
  rw [Bool.eq_iff_iff, ← Tree.ancestors_ne_nil_iff, ← Tree.ancestors_ne_nil_iff, ancestors_handOver]

theorem global_handOver : (e.handOver root p v).2.global = e.global := by
  have hh := handingOver e root p v
  generalize (e.handOver root p v).1 = r at hh
  generalize (e.handOver root p v).2 = e' at hh ⊢
  cases hh <;> rfl

theorem handOver_of_not_contains (h : ¬e.tree.contains root) :
    (e.handOver root p v).1 = .error (.missingNode root) := by
  have hh := handingOver e root p v
  generalize (e.handOver root p v).1 = r at hh ⊢
  generalize (e.handOver root p v).2 = e' at hh
  cases hh
  case missing => rfl
  case conflict hc _ => exact absurd hc h
  case done hc _ => exact absurd hc h

theorem handOver_eq (h : e.tree.contains root) : (e.handOver root p v).1.map
    (fun _ => (e.handOver root p v).2.tree.context? root handoffId) =
      (((e.handoff root).set p v).map some).mapError .ofConflict := by
  have hh := handingOver e root p v
  generalize (e.handOver root p v).1 = r at hh ⊢
  generalize (e.handOver root p v).2 = e' at hh ⊢
  cases hh
  case missing hn => exact absurd h hn
  case conflict hs => rw [hs]; rfl
  case done new _ hs =>
    rw [hs]
    refine congrArg Except.ok ((Tree.context?_setHandoff ?_).trans (if_pos ⟨rfl, rfl⟩))
    exact Tree.contains_modify.trans h

end HandOver

end BindingEngine.Engine
