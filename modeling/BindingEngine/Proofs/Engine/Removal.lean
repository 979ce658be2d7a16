import BindingEngine.Proofs.Engine.Course

namespace BindingEngine.Engine

variable {e e' : Engine} {n m : NodeId}

theorem Reachable.sound (h : Reachable e) : Sound e := by
  induction h
  case start global baseUrl => exact .start global baseUrl
  case operation op _ hi => exact hi.apply op
  case handOver root p v _ hi => exact hi.handOver root p v

section Silence

theorem isSilent_of_mem_removeNode {registry : Registry} {n : NodeId} {r : Report}
    (h : r ∈ (registry.removeNode n).2.2) : r.isSilent := by
  refine List.foldlRecOn (motive := fun done : Nat × Registry × List Report =>
    ∀ r ∈ done.2.2, r.isSilent) ((Table.get? registry.byNode n).getD []) _ (by simp)
    (fun done hd id _ r hr => ?_) r h
  rcases List.mem_append.mp hr with hr | hr
  case inl => exact hd r hr
  case inr =>
    unfold Registry.remove at hr
    split at hr
    case h_1 => contradiction
    case h_2 => exact List.mem_singleton.mp hr ▸ rfl

theorem journal_destroy (e : Engine) (n : NodeId) : ∃ reports, (∀ r ∈ reports, r.isSilent) ∧
    (e.destroy n).2.journal = e.journal ++ reports := by
  obtain ⟨reports, hr, hj⟩ : ∃ reports, (∀ r ∈ reports, r.isSilent) ∧
      ((e.tree.subtree n).foldl forget e).journal = e.journal ++ reports := by
    refine List.foldlRecOn (motive := fun e' : Engine => ∃ reports, (∀ r ∈ reports, r.isSilent) ∧
      e'.journal = e.journal ++ reports) (e.tree.subtree n) forget
      ⟨[], by simp, (List.append_nil _).symm⟩ fun e' hi m _ => ?_
    obtain ⟨reports, hr, hj⟩ := hi
    refine ⟨reports ++ (e'.subscriptions.removeNode m).2.2, fun r hm => ?_, ?_⟩
    case refine_1 => exact (List.mem_append.mp hm).elim (hr r) isSilent_of_mem_removeNode
    case refine_2 => rw [← List.append_assoc, ← hj]; rfl
  simp only [destroy]
  split
  case isTrue => exact ⟨reports, hr, hj⟩
  case isFalse =>
    generalize List.length _ = removed
    refine ⟨reports ++ [.subtreeDestroyed n removed], fun r hm => ?_, ?_⟩
    case refine_1 =>
      exact (List.mem_append.mp hm).elim (hr r) fun hm => List.mem_singleton.mp hm ▸ rfl
    case refine_2 => rw [← List.append_assoc, ← hj]; rfl

end Silence

-- A node is there or not as before, sees what it saw, and owns what it owned.
structure SameAt (e e' : Engine) (m : NodeId) : Prop where
  contains : e'.tree.contains m = e.tree.contains m
  resolve (id : String) : e'.resolve id m = e.resolve id m
  locate? (id : String) : e'.locate? id m = e.locate? id m
  evaluate (t : Template) (implicit : List Context) :
    (e'.evaluate t m implicit).1 = (e.evaluate t m implicit).1
  enclosingForm? : e'.enclosingForm? m = e.enclosingForm? m
  subscription? (i : Nat) (s : Subscription) : s.node = m →
    (e'.subscriptions.subscription? i = some s ↔ e.subscriptions.subscription? i = some s)

theorem destroy_fst (e : Engine) (n : NodeId) : (e.destroy n).1 = e.tree.subtree n := by
  obtain ⟨_, _, h⟩ := foldl_forget_eq e (e.tree.subtree n)
  simp only [destroy, h]
  rfl

theorem resolve_scope_congr (h : ∀ id, e'.resolve id m = e.resolve id m) (implicit : List Context) :
    (e'.scope m implicit).resolve = (e.scope m implicit).resolve := by
  funext id
  have h := h id
  simp only [Engine.resolve, Scope.resolve, scope] at h ⊢
  cases implicit.find? (·.id = id)
  case none => exact h
  case some => rfl

theorem sameAt_destroy (h : Sound e) (hm : n ∉ e.tree.ancestors m) : SameAt e (e.destroy n).2 m := by
  have f := h.forest
  have hv : Tree.SameView e.tree (e.destroy n).2.tree m := by
    rw [tree_destroy]
    exact f.sameView_remove hm
  have hg : (e.destroy n).2.global = e.global := by
    obtain ⟨_, _, he⟩ := destroy_eq e n
    rw [he]
  have hr (id : String) : (e.destroy n).2.resolve id m = e.resolve id m := by
    rw [Engine.resolve, scope, hg]
    exact hv.resolve
  constructor
  case contains =>
    rw [Bool.eq_iff_iff, ← Tree.ancestors_ne_nil_iff, ← Tree.ancestors_ne_nil_iff, hv.ancestors]
  case resolve => exact hr
  case locate? => exact fun id => hv.locate?
  case evaluate =>
    intro t implicit
    simp only [evaluate, resolve_scope_congr hr]
  case enclosingForm? =>
    -- none of the nodes around `m` is removed
    have hf : ∀ a ∈ e.tree.ancestors m,
        Table.get? (e.destroy n).2.forms a = Table.get? e.forms a := fun a ha => by
      rw [form?_destroy f, if_neg fun hn => hm (f.ancestors_trans hn ha)]
    rw [Engine.enclosingForm?, Engine.enclosingForm?, hv.ancestors, ← List.head?_filterMap,
      ← List.head?_filterMap, List.filterMap_congr fun a ha => by rw [hf a ha]]
  case subscription? =>
    intro i s hs
    rw [subscription?_destroy f h.indexed, Option.filter_eq_some_iff, hs]
    exact and_iff_left (decide_eq_true hm)

-- A node is removed with everything below it, every node after those below it. Nothing is left of what is
-- removed, everybody else is as before, and no observer hears of it.
theorem destroy_traceless (h : Reachable e) (n : NodeId) :
    ((∀ m, m ∈ (e.destroy n).1 ↔ e.tree.contains m ∧ n ∈ e.tree.ancestors m) ∧
      (e.destroy n).1.Nodup ∧ (e.destroy n).1.Pairwise fun a b => a ∉ e.tree.ancestors b) ∧
    (∀ m ∈ (e.destroy n).1, ¬(e.destroy n).2.tree.contains m ∧
      Table.get? (e.destroy n).2.forms m = none ∧
      ∀ i s, (e.destroy n).2.subscriptions.subscription? i = some s → s.node ≠ m) ∧
    (∀ m ∉ (e.destroy n).1, SameAt e (e.destroy n).2 m) ∧
    (∃ reports, (∀ r ∈ reports, r.isSilent) ∧
      (e.destroy n).2.journal = e.journal ++ reports) ∧
    (∀ i s, e.subscriptions.subscription? i = some s → e.tree.contains s.node) ∧
    ∀ m form, Table.get? e.forms m = some form → e.tree.contains m := by
  have hs := h.sound
  have f := hs.forest
  have hd := hs.destroy n
  have hmem {m : NodeId} : m ∈ (e.destroy n).1 ↔ n ∈ e.tree.ancestors m := by
    rw [destroy_fst, f.mem_subtree_iff]
  refine ⟨⟨fun m => ?mem, ?nodup, ?pairwise⟩, fun m hm => ?removed, fun m hm => ?left,
    journal_destroy e n, fun i s hs' => hs.live hs', fun m form hf => hs.formed hf⟩
  case mem =>
    rw [hmem]
    refine (and_iff_right_of_imp fun hn => ?_).symm
    exact Tree.ancestors_ne_nil_iff.mp (List.ne_nil_of_mem hn)
  case nodup => exact destroy_fst e n ▸ f.subtree_nodup n
  case pairwise => exact destroy_fst e n ▸ f.subtree_pairwise n
  case removed =>
    have hg : ¬(e.destroy n).2.tree.contains m := by
      rw [tree_destroy, ← Tree.ancestors_ne_nil_iff, Tree.ancestors_remove f, if_pos (hmem.mp hm)]
      exact not_not_intro rfl
    refine ⟨hg, ?_, fun i s hs' he => hg (he ▸ hd.live hs')⟩
    rw [form?_destroy f, if_pos (hmem.mp hm)]
  case left => exact sameAt_destroy hs (mt hmem.mpr hm)

def populated : Engine :=
  (start .null none).run
    [.createRoot, .declareContext ⟨0, 0⟩ ⟨"x", .int 1⟩, .addChild ⟨0, 0⟩,
      .declareContext ⟨1, 0⟩ ⟨"x", .int 2⟩, .declareForm ⟨1, 0⟩ {}, .addChild ⟨1, 0⟩,
      .subscribe ⟨2, 0⟩ readsX { name := "inside" }, .addChild ⟨0, 0⟩,
      .subscribe ⟨3, 0⟩ readsX { name := "beside" }]

theorem populated_traceless : (populated.destroy ⟨1, 0⟩).1 = [⟨2, 0⟩, ⟨1, 0⟩] ∧
    ¬(populated.destroy ⟨1, 0⟩).2.tree.contains ⟨2, 0⟩ ∧
    SameAt populated (populated.destroy ⟨1, 0⟩).2 ⟨3, 0⟩ := by
  have hr : Reachable populated := (Reachable.start .null none).run _
  obtain ⟨_, hd, hl, _⟩ := destroy_traceless hr ⟨1, 0⟩
  exact ⟨rfl, (hd ⟨2, 0⟩ (by decide)).1, hl ⟨3, 0⟩ (by decide)⟩

end BindingEngine.Engine
