import BindingEngine.Proofs.Tree.Operation

namespace BindingEngine.Tree

variable {t t' : Tree} {n m c p : NodeId} {d : Node}

-- A name is spent when its slot has gone on to a later generation, or has been emptied in this one.
-- It is not the name of a node, and will never be that of one again.
def Spent (t : Tree) (n : NodeId) : Prop :=
  ∃ slot, t.slots[n.index]? = some slot ∧
    (n.generation < slot.generation ∨ n.generation = slot.generation ∧ slot.node = none)

namespace Spent

theorem not_contains (h : Spent t n) : ¬t.contains n := by
  obtain ⟨slot, hs, hg⟩ := h
  have hne : slot.generation = n.generation → slot.node = none := fun he =>
    hg.elim (fun hl => absurd he (Nat.ne_of_gt hl)) (·.2)
  simpa [contains, node?, hs] using hne

theorem modify (h : Spent t n) (m : NodeId) (f : Node → Node) : Spent (t.modify m f) n := by
  cases hm : t.node? m
  case none => simpa [Tree.modify, hm] using h
  case some d =>
    by_cases hi : m.index = n.index
    case neg => simpa [Spent, slots_modify hm, hi] using h
    case pos =>
      -- the slot holds a node, so it has gone on to a later generation
      obtain ⟨slot, hs, hg⟩ := h
      have hs' := node?_eq_some_iff.mp hm
      rw [hi, hs, Option.some.injEq] at hs'
      have hl : n.generation < m.generation := by simpa [hs'] using hg
      refine ⟨⟨m.generation, some (f d)⟩, ?_, .inl hl⟩
      rw [slots_modify hm, hi, Array.getElem?_setIfInBounds_self_of_lt (hi ▸ index_lt_size hm)]

theorem insert (h : Spent t n) (d : Node) : Spent (t.insert d).2 n := by
  obtain ⟨slot, hs, hg⟩ := h
  obtain ⟨hb, hs'⟩ := Array.getElem?_eq_some_iff.mp hs
  unfold Tree.insert
  split
  case h_2 => exact ⟨slot, by rw [Array.getElem?_push, if_neg (Nat.ne_of_lt hb), hs], hg⟩
  case h_1 index free hl =>
    by_cases hi : index = n.index
    case neg => exact ⟨slot, by simpa [hi] using hs, hg⟩
    case pos =>
      subst hi
      -- taking the slot again moves it on once more
      have hle : n.generation ≤ slot.generation := hg.elim Nat.le_of_lt (fun h => Nat.le_of_eq h.1)
      refine ⟨⟨slot.generation + 1, some d⟩, ?_, .inl (Nat.lt_succ_of_le hle)⟩
      simp [hb, hs']

theorem release (h : Spent t n) (m : NodeId) : Spent (t.release m) n := by
  obtain ⟨slot, hs, hg⟩ := h
  rw [Spent, slots_release, hs]
  split
  case isFalse => exact ⟨slot, rfl, hg⟩
  case isTrue => exact ⟨{ slot with node := none }, rfl, hg.imp_right fun h => ⟨h.1, rfl⟩⟩

theorem foldl_release (h : Spent t n) (ns : List NodeId) : Spent (ns.foldl Tree.release t) n := by
  induction ns generalizing t
  case nil => exact h
  case cons m ns hi => exact hi (h.release m)

theorem unlink (h : Spent t n) (m : NodeId) : Spent (t.unlink m) n := by
  unfold Tree.unlink
  split
  case h_1 => exact h.modify _ _
  case h_2 => exact h

theorem apply (h : Spent t n) : (op : Operation) → Spent (op.apply t) n
  | .createRoot => h.insert _
  | .addChild p => by
    simp only [Operation.apply, addChild]
    split
    case h_2 => exact h
    case h_1 he =>
      split at he
      case h_1 => contradiction
      case h_2 =>
        simp only [Except.ok.injEq, Prod.mk.injEq] at he
        exact he.2 ▸ (h.insert _).modify _ _
  | .declare m x => by
    simp only [Operation.apply]
    split
    case h_2 => exact h
    case h_1 he =>
      obtain ⟨_, _, _, _, ht⟩ := declare_eq_ok_iff.mp he
      exact ht ▸ h.modify _ _
  | .setContext m id v => by
    simp only [Operation.apply, setContext]
    split
    case isTrue => exact h
    case isFalse => split <;> exact h.modify _ _
  | .setHandoff m v => h.modify _ _
  | .remove m => (h.unlink m).foldl_release _

end Spent

theorem spent_release (h : t.node? n = some d) : Spent (t.release n) n := by
  refine ⟨⟨n.generation, none⟩, ?_, .inr ⟨rfl, rfl⟩⟩
  rw [slots_release, if_pos rfl, node?_eq_some_iff.mp h, Option.map_some]

theorem spent_foldl_release {ns : List NodeId} (hn : n ∈ ns) (hd : ns.Nodup)
    (hc : ∀ m ∈ ns, t.contains m) : Spent (ns.foldl release t) n := by
  induction ns generalizing t
  case nil => contradiction
  case cons m ns hi =>
    obtain ⟨hm, hd⟩ := List.nodup_cons.mp hd
    have hmc := hc m List.mem_cons_self
    cases hn
    case head =>
      obtain ⟨_, hmd⟩ := contains_iff.mp hmc
      exact (spent_release hmd).foldl_release ns
    case tail hn =>
      exact hi hn hd fun b hb =>
        contains_release hmc (hc b (List.mem_cons_of_mem m hb)) fun he => hm (he ▸ hb)

theorem Forest.spent_remove (f : t.Forest) (h : m ∈ t.subtree n) : Spent (t.remove n).2 m :=
  spent_foldl_release h (f.subtree_nodup n) fun b hb =>
    (f.contains_unlink b).trans (f.contains_of_mem_subtree hb)

end BindingEngine.Tree
