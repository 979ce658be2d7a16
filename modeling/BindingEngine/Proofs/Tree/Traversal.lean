import BindingEngine.Proofs.Scope.Resolution
import BindingEngine.Proofs.Tree.History
import BindingEngine.Proofs.Tree.Links

namespace BindingEngine

theorem Node.children_without {d : Node} {n : NodeId} (h : d.children.Nodup) :
    (d.without n).children = d.children.erase n := by
  rw [h.erase_eq_filter]
  exact List.filter_congr fun c _ => decide_not

namespace Tree

variable {t : Tree} {n m c : NodeId} {d : Node} {k k' : Nat}

-- The way from a node to its parent, to the parent of that one and so on, up to a node without parent.
structure Ascends (t : Tree) (n : NodeId) (way : List NodeId) : Prop where
  first : way.head? = some n
  step : way.IsChain fun a b => t.parent? a = some b
  last : ∃ r, way.getLast? = some r ∧ t.parent? r = none

-- A node and what is below it, each node once and after all that is below it, the parts below its children
-- in their order and the node itself last.
structure Descends (t : Tree) (n : NodeId) (nodes : List NodeId) : Prop where
  nodup : nodes.Nodup
  order : nodes.Pairwise fun a b => a ∉ t.ancestors b
  eq : nodes = (t.children n).flatMap t.subtree ++ [n]

-- What has become of a tree when `nodes`, which are `n` and what is below it, are removed. Everything else
-- is as before, and `n` is gone from the children of its parent.
structure Removes (t : Tree) (n : NodeId) (nodes : List NodeId) (t' : Tree) : Prop where
  removed (m : NodeId) : m ∈ nodes ↔ t.contains m ∧ ¬t'.contains m
  kept (m : NodeId) : t'.contains m → t.contains m
  parent? (m : NodeId) : t'.contains m → t'.parent? m = t.parent? m
  context? (m : NodeId) (id : String) : t'.contains m → t'.context? m id = t.context? m id
  children (m : NodeId) : t'.contains m → t'.children m =
    if t.parent? n = some m then (t.children m).erase n else t.children m

namespace Forest

variable (f : t.Forest)

include f

theorem contains_of_mem_children (hc : c ∈ t.children n) : t.contains c := by
  obtain ⟨e, he, hm⟩ := mem_children_iff.mp hc
  obtain ⟨d, hd, _⟩ := f.child he hm
  exact contains_iff.mpr ⟨d, hd⟩

theorem length_ancestors_child (hc : c ∈ t.children n) :
    (t.ancestors c).length = (t.ancestors n).length + 1 := by
  obtain ⟨e, he, hm⟩ := mem_children_iff.mp hc
  rw [f.ancestors_child he hm, List.length_cons]

-- More fuel than there are slots below the node changes nothing.
theorem below_eq (hk : t.slots.size < k + (t.ancestors n).length)
    (hk' : t.slots.size < k' + (t.ancestors n).length) : t.below k n = t.below k' n := by
  have hl := f.length_ancestors_le n
  induction k generalizing n k'
  case zero => omega
  case succ k hi =>
    obtain ⟨k', rfl⟩ := Nat.exists_eq_succ_of_ne_zero (show k' ≠ 0 by omega)
    simp only [below]
    congr 1
    refine List.flatMap_congr fun c hc => ?_
    have hc := f.length_ancestors_child hc
    exact hi (by omega) (by omega) (f.length_ancestors_le c)

theorem subtree_eq (hn : t.contains n) : t.subtree n = (t.children n).flatMap t.subtree ++ [n] := by
  have hl := f.length_ancestors_le n
  have hp := List.length_pos_iff.mpr (ancestors_ne_nil_iff.mpr hn)
  obtain ⟨k, hk⟩ := Nat.exists_eq_succ_of_ne_zero (show t.slots.size ≠ 0 by omega)
  rw [subtree, if_pos hn, hk, below]
  congr 1
  refine List.flatMap_congr fun c hc => ?_
  have hl := f.length_ancestors_child hc
  rw [subtree, if_pos (f.contains_of_mem_children hc)]
  exact f.below_eq (by omega) (by omega)

theorem ascends (hn : t.contains n) : t.Ascends n (t.ancestors n) where
  first := head?_ancestors hn
  step := f.isChain_ancestors n
  last := by
    have hne := ancestors_ne_nil_iff.mpr hn
    exact ⟨_, List.getLast?_eq_getLast_of_ne_nil hne,
      f.parent?_getLast? (List.getLast?_eq_getLast_of_ne_nil hne)⟩

theorem descends (hn : t.contains n) : t.Descends n (t.subtree n) where
  nodup := f.subtree_nodup n
  order := f.subtree_pairwise n
  eq := f.subtree_eq hn

theorem contains_remove : (t.remove n).2.contains m ↔ t.contains m ∧ n ∉ t.ancestors m := by
  rw [contains, f.node?_remove]
  split
  case isTrue h => simp [h]
  case isFalse h => simp [h, contains]

theorem removes (n : NodeId) : t.Removes n (t.remove n).1 (t.remove n).2 where
  removed m := by
    rw [remove_eq, f.mem_subtree_iff, ← remove_eq, f.contains_remove]
    refine ⟨fun h => ⟨?_, fun hm => hm.2 h⟩, fun h => ?_⟩
    case refine_1 => exact ancestors_ne_nil_iff.mp (List.ne_nil_of_mem h)
    case refine_2 => exact not_not.mp fun hn => h.2 ⟨h.1, hn⟩
  kept m hm := (f.contains_remove.mp hm).1
  parent? m hm := by
    rw [parent?_eq, parent?_eq, ancestors_remove f, if_neg (f.contains_remove.mp hm).2]
  context? m id hm := by
    rw [context?_eq, context?_eq, f.node?_remove, if_neg (f.contains_remove.mp hm).2]
    cases t.node? m <;> rfl
  children m hm := by
    obtain ⟨hm, hn⟩ := f.contains_remove.mp hm
    obtain ⟨d, hd⟩ := contains_iff.mp hm
    have hd' : (t.remove n).2.node? m = some (d.without n) := by
      rw [f.node?_remove, if_neg hn, hd, Option.map_some]
    rw [children_eq hd', children_eq hd]
    split
    case isTrue => exact Node.children_without (f.children_nodup hd)
    case isFalse hp =>
      rw [Node.without_of_not_mem]
      exact fun hc => hp (f.parent?_eq_some_iff.mpr (mem_children_iff.mpr ⟨d, hd, hc⟩))

end Forest

-- Whatever was done to a tree before, the walks up and down tell the same relation, each in its order, and a
-- removal takes away what is found on the way down.
theorem walks_agree (ops : List Operation) {m n : NodeId} (hm : (run {} ops).contains m)
    (hn : (run {} ops).contains n) :
    (m ∈ (run {} ops).ancestors n ↔ n ∈ (run {} ops).subtree m) ∧
    (run {} ops).Ascends n ((run {} ops).ancestors n) ∧
    (run {} ops).Descends m ((run {} ops).subtree m) ∧
    ((run {} ops).remove m).1 = (run {} ops).subtree m ∧
    (run {} ops).Removes m ((run {} ops).subtree m) ((run {} ops).remove m).2 := by
  have f : (run {} ops).Forest := Forest.empty.run ops
  exact ⟨f.mem_subtree_iff.symm, f.ascends hn, f.descends hm, rfl, f.removes m⟩

def family : List Operation :=
  [.createRoot, .addChild ⟨0, 0⟩, .remove ⟨0, 0⟩, .createRoot, .addChild ⟨0, 1⟩, .addChild ⟨0, 1⟩,
    .addChild ⟨1, 1⟩, .addChild ⟨1, 1⟩]

theorem family_walks :
    (run {} family).ancestors ⟨4, 0⟩ = [⟨4, 0⟩, ⟨1, 1⟩, ⟨0, 1⟩] ∧
    (run {} family).subtree ⟨1, 1⟩ = [⟨3, 0⟩, ⟨4, 0⟩, ⟨1, 1⟩] ∧
    (⟨1, 1⟩ ∈ (run {} family).ancestors ⟨4, 0⟩ ↔ ⟨4, 0⟩ ∈ (run {} family).subtree ⟨1, 1⟩) ∧
    (run {} family).Ascends ⟨4, 0⟩ [⟨4, 0⟩, ⟨1, 1⟩, ⟨0, 1⟩] ∧
    (run {} family).Descends ⟨1, 1⟩ [⟨3, 0⟩, ⟨4, 0⟩, ⟨1, 1⟩] ∧
    ((run {} family).remove ⟨1, 1⟩).1 = [⟨3, 0⟩, ⟨4, 0⟩, ⟨1, 1⟩] ∧
    (run {} family).Removes ⟨1, 1⟩ [⟨3, 0⟩, ⟨4, 0⟩, ⟨1, 1⟩] ((run {} family).remove ⟨1, 1⟩).2 :=
  ⟨rfl, rfl, walks_agree family (by decide) (by decide)⟩

end Tree

end BindingEngine
