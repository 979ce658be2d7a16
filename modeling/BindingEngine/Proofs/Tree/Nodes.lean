import BindingEngine.Scope.Basic

namespace BindingEngine.Tree

variable {t t' : Tree} {n m c p : NodeId} {d d' : Node}

theorem node?_eq_some_iff : t.node? n = some d ↔ t.slots[n.index]? = some ⟨n.generation, some d⟩ := by
  unfold node?
  split
  case h_1 slot hs =>
    obtain ⟨generation, node⟩ := slot
    rw [hs]
    by_cases h : generation = n.generation <;> simp [h]
  case h_2 hs => simp [hs]

theorem contains_iff : t.contains n ↔ ∃ d, t.node? n = some d := by
  simp [contains, Option.isSome_iff_exists]

theorem eq_of_index_eq (h₁ : t.node? n = some d) (h₂ : t.node? m = some d')
    (hi : n.index = m.index) : n = m := by
  have h := node?_eq_some_iff.mp h₁
  rw [hi, node?_eq_some_iff.mp h₂] at h
  obtain ⟨hg, _⟩ : m.generation = n.generation ∧ d' = d := by simpa using h
  cases n
  cases m
  simp_all

theorem slot_eq (h : t.node? n = some d) :
    ∃ hi : n.index < t.slots.size, t.slots[n.index] = ⟨n.generation, some d⟩ :=
  Array.getElem?_eq_some_iff.mp (node?_eq_some_iff.mp h)

theorem index_lt_size (h : t.node? n = some d) : n.index < t.slots.size :=
  (slot_eq h).1

theorem children_eq (h : t.node? n = some d) : t.children n = d.children := by
  simp [children, h]

theorem ancestors_eq (h : t.node? n = some d) : t.ancestors n = n :: d.lineage := by
  simp [ancestors, h]

theorem ancestors_ne_nil_iff : t.ancestors n ≠ [] ↔ t.contains n := by
  cases h : t.node? n <;> simp [ancestors, contains, h]

theorem head?_ancestors (h : t.contains n) : (t.ancestors n).head? = some n := by
  obtain ⟨d, hd⟩ := contains_iff.mp h
  simp [ancestors_eq hd]

theorem mem_ancestors_self (h : t.contains n) : n ∈ t.ancestors n :=
  List.mem_of_mem_head? (by rw [head?_ancestors h]; rfl)

theorem ancestors_congr (h : (t'.node? n).map (·.lineage) = (t.node? n).map (·.lineage)) :
    t'.ancestors n = t.ancestors n := by
  cases h₁ : t.node? n <;> cases h₂ : t'.node? n <;> simp_all [ancestors]

section Modify

variable {f : Node → Node}

theorem slots_modify (h : t.node? n = some d) :
    (t.modify n f).slots = t.slots.setIfInBounds n.index ⟨n.generation, some (f d)⟩ := by
  simp [modify, h]

theorem free_modify : (t.modify n f).free = t.free := by
  unfold modify
  split <;> rfl

theorem node?_modify : (t.modify n f).node? m = if m = n then (t.node? n).map f else t.node? m := by
  cases h : t.node? n
  case none =>
    have hn : m = n → t.node? m = none := (· ▸ h)
    simpa [modify, h] using hn
  case some d =>
    split
    case isTrue hm =>
      subst hm
      exact node?_eq_some_iff.mpr <| by simp [slots_modify h, index_lt_size h]
    case isFalse hm =>
      by_cases hi : m.index = n.index
      case neg => simp [node?, slots_modify h, Ne.symm hi]
      case pos =>
        -- the name is one of another generation, which is not there before and after
        have hg : n.generation ≠ m.generation := fun hg => hm (by cases m; cases n; simp_all)
        obtain ⟨hb, hs⟩ := slot_eq h
        simp [node?, slots_modify h, hi, hb, hg, hs]

theorem contains_modify : (t.modify n f).contains m = t.contains m := by
  simp only [contains, node?_modify]
  split
  case isTrue h => simp [h]
  case isFalse => rfl

theorem ancestors_modify (hf : ∀ d, (f d).lineage = d.lineage) :
    (t.modify n f).ancestors m = t.ancestors m := by
  apply ancestors_congr
  rw [node?_modify]
  split
  case isTrue h =>
    subst h
    cases t.node? m <;> simp [hf]
  case isFalse => rfl

end Modify

-- The slots without a node are those on the list of free ones.
structure FreeList (t : Tree) : Prop where
  nodup : t.free.Nodup
  mem_iff {i : Nat} : i ∈ t.free ↔ ∃ generation, t.slots[i]? = some ⟨generation, none⟩

namespace FreeList

theorem empty : FreeList {} where
  nodup := .nil
  mem_iff := by simp

theorem modify (h : FreeList t) (n : NodeId) (f : Node → Node) : FreeList (t.modify n f) := by
  cases hn : t.node? n
  case none => simpa [Tree.modify, hn] using h
  case some d =>
    refine ⟨?nodup, fun {i} => ?mem⟩
    case nodup =>
      rw [free_modify]
      exact h.nodup
    case mem =>
      rw [free_modify, h.mem_iff, slots_modify hn, Array.getElem?_setIfInBounds]
      split
      case isFalse => rfl
      case isTrue hi =>
        obtain ⟨hb, hs⟩ := slot_eq hn
        simp [← hi, hb, hs]

theorem slot_eq_of_free (h : FreeList t) {index : Nat} {free : List Nat}
    (hf : t.free = index :: free) :
    ∃ generation, ∃ hi : index < t.slots.size, t.slots[index] = ⟨generation, none⟩ := by
  obtain ⟨generation, hs⟩ := h.mem_iff.mp (hf ▸ List.mem_cons_self : index ∈ t.free)
  exact ⟨generation, Array.getElem?_eq_some_iff.mp hs⟩

end FreeList

-- What is there after a node was put into a slot. The name it goes by was not in use.
structure Inserted (t : Tree) (d : Node) (c : NodeId) (t' : Tree) : Prop where
  new : t.node? c = none
  node? (m : NodeId) : t'.node? m = if m = c then some d else t.node? m

theorem FreeList.inserted (h : FreeList t) (d : Node) :
    Inserted t d (t.insert d).1 (t.insert d).2 := by
  unfold insert
  split
  case h_1 index free hf =>
    -- the slot of the last node removed is taken, in its next generation
    obtain ⟨generation, hi, hs⟩ := h.slot_eq_of_free hf
    refine ⟨?new, fun m => ?node⟩
    case new => simp [Tree.node?, hi, hs]
    case node =>
      by_cases hm : m.index = index
      case neg =>
        have hne : m ≠ ⟨index, generation + 1⟩ := fun h => hm (h ▸ rfl)
        simp [Tree.node?, hi, hs, Ne.symm hm, hne]
      case pos =>
        obtain ⟨_, g⟩ := m
        subst hm
        by_cases hg : g = generation + 1
        case pos => simp [Tree.node?, hi, hs, hg]
        case neg => simp [Tree.node?, hi, hs, hg, Ne.symm hg]
  case h_2 hf =>
    -- no slot is free, so a new one is put at the end
    refine ⟨?new, fun m => ?node⟩
    case new => simp [Tree.node?]
    case node =>
      obtain ⟨i, g⟩ := m
      by_cases hi : i = t.slots.size
      case neg => simp [Tree.node?, Array.getElem?_push, hi]
      case pos =>
        by_cases hg : g = 0
        case pos => simp [Tree.node?, hi, hg]
        case neg => simp [Tree.node?, hi, hg, Ne.symm hg]

theorem FreeList.insert (h : FreeList t) (d : Node) : FreeList (t.insert d).2 := by
  unfold Tree.insert
  split
  case h_1 index free hf =>
    obtain ⟨generation, hi, hs⟩ := h.slot_eq_of_free hf
    obtain ⟨hn, hd⟩ := List.nodup_cons.mp (hf ▸ h.nodup)
    refine ⟨hd, fun {i} => ?_⟩
    by_cases hne : index = i
    -- the slot that was taken holds a node now, and is not free a second time
    case pos => simp [← hne, hn, hi, hs]
    case neg =>
      have hm : i ∈ free ↔ i ∈ t.free := by simp [hf, Ne.symm hne]
      simp [hm, h.mem_iff, hne]
  case h_2 hf =>
    refine ⟨hf ▸ h.nodup, fun {i} => ?_⟩
    rw [h.mem_iff, Array.getElem?_push]
    split
    case isFalse => rfl
    case isTrue hi => simp [hi]

section Release

theorem slots_release : (t.release n).slots[m.index]? =
    if m.index = n.index then t.slots[m.index]?.map fun slot => { slot with node := none }
    else t.slots[m.index]? := by
  unfold release
  split
  case h_2 hs =>
    split
    case isTrue h => simp [h, hs]
    case isFalse => rfl
  case h_1 slot hs =>
    obtain ⟨hi, hs⟩ := Array.getElem?_eq_some_iff.mp hs
    by_cases h : m.index = n.index
    case pos => simp [h, hi, hs]
    case neg => simp [h, Ne.symm h]

theorem node?_release : (t.release n).node? m = if m.index = n.index then none else t.node? m := by
  simp only [node?, slots_release]
  by_cases h : m.index = n.index
  case neg => simp [h]
  case pos => cases hs : t.slots[n.index]? <;> simp [h, hs]

theorem contains_release (hn : t.contains n) (hm : t.contains m) (hne : m ≠ n) :
    (t.release n).contains m := by
  obtain ⟨_, hn⟩ := contains_iff.mp hn
  obtain ⟨d, hm⟩ := contains_iff.mp hm
  have hi : m.index ≠ n.index := fun hi => hne (eq_of_index_eq hm hn hi)
  exact contains_iff.mpr ⟨d, by rw [node?_release, if_neg hi, hm]⟩

theorem node?_foldl_release (ns : List NodeId) :
    (ns.foldl release t).node? m = if m.index ∈ ns.map (·.index) then none else t.node? m := by
  induction ns generalizing t
  case nil => simp
  case cons n ns hi =>
    simp only [List.foldl_cons, hi, node?_release, List.map_cons, List.mem_cons]
    split <;> split <;> simp_all

theorem FreeList.release (h : FreeList t) (hn : t.node? n = some d) : FreeList (t.release n) := by
  have hs := node?_eq_some_iff.mp hn
  have hf : (t.release n).free = n.index :: t.free := by simp [Tree.release, hs]
  refine ⟨?nodup, fun {i} => ?mem⟩
  case nodup => simpa [hf, h.mem_iff, hs] using h.nodup
  case mem =>
    -- which slot is emptied does not depend on the generation
    have hr := slots_release (t := t) (n := n) (m := ⟨i, 0⟩)
    simp only at hr
    rw [hf, List.mem_cons, h.mem_iff, hr]
    split
    case isTrue hi => simp [hi, hs]
    case isFalse hi => simp [hi]

theorem FreeList.foldl_release {ns : List NodeId} (h : FreeList t) (hn : ns.Nodup)
    (hl : ∀ n ∈ ns, t.contains n) : FreeList (ns.foldl Tree.release t) := by
  induction ns generalizing t
  case nil => exact h
  case cons n ns hi =>
    obtain ⟨hm, hn⟩ := List.nodup_cons.mp hn
    have hc := hl n List.mem_cons_self
    obtain ⟨_, hd⟩ := contains_iff.mp hc
    -- the others are in other slots, and are there when it is their turn
    apply hi (h.release hd) hn
    intro b hb
    exact contains_release hc (hl b (List.mem_cons_of_mem n hb)) fun he => hm (he ▸ hb)

end Release

end BindingEngine.Tree
