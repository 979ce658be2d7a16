import Mathlib.Data.List.Perm.Subperm
import BindingEngine.Proofs.Tree.Nodes

namespace BindingEngine.Tree

-- A node knows its ancestors and its children. In a forest both tell the same story:
-- 1. the first ancestor of a node is live, has the others for ancestors and lists the node as a child
-- 2. the children of a node are live and have the node and its ancestors for ancestors
-- 3. no node lists a child twice
-- Besides, empty slots are the free ones and no node declares a context of a reserved name.
structure Forest (t : Tree) : Prop where
  freeList : FreeList t
  parent {n d p l} : t.node? n = some d → d.lineage = p :: l →
    ∃ e, t.node? p = some e ∧ e.lineage = l ∧ n ∈ e.children
  child {p e c} : t.node? p = some e → c ∈ e.children →
    ∃ d, t.node? c = some d ∧ d.lineage = p :: e.lineage
  children_nodup {p e} : t.node? p = some e → e.children.Nodup
  declared {n d x} : t.node? n = some d → d.context = some x → ¬isReserved x.id

variable {t t' : Tree} {n m a c p : NodeId} {d e : Node} {l : List NodeId}

namespace Forest

theorem empty : Forest {} where
  freeList := .empty
  parent h _ := by simp [node?] at h
  child h _ := by simp [node?] at h
  children_nodup h := by simp [node?] at h
  declared h _ := by simp [node?] at h

section Ancestors

variable (f : t.Forest)

include f

theorem ancestors_of_suffix {w : List NodeId} (h : a :: l <:+ w) (hw : t.ancestors n = w) :
    t.ancestors a = a :: l := by
  induction w generalizing n
  case nil => simp at h
  case cons m w hi =>
    obtain ⟨d, hd⟩ := contains_iff.mp <| ancestors_ne_nil_iff.mp (hw ▸ List.cons_ne_nil m w)
    obtain ⟨hn, hl⟩ : n = m ∧ d.lineage = w := by simpa [ancestors_eq hd] using hw
    -- either `a` is the node itself, or it is on the way of its parent
    cases List.suffix_cons_iff.mp h
    case inl h =>
      injection h with h₁ h₂
      rw [h₁, h₂, ← hn, hw, hn]
    case inr h =>
      cases w
      case nil => simp at h
      case cons p l' =>
        obtain ⟨e, he, hel, _⟩ := f.parent hd hl
        exact hi h (by rw [ancestors_eq he, hel])

theorem ancestors_suffix (h : a ∈ t.ancestors n) : t.ancestors a <:+ t.ancestors n := by
  obtain ⟨s, r, hs⟩ := List.append_of_mem h
  have hr : a :: r <:+ t.ancestors n := hs ▸ List.suffix_append s _
  exact f.ancestors_of_suffix hr rfl ▸ hr

theorem contains_of_mem_ancestors (h : a ∈ t.ancestors n) : t.contains a := by
  obtain ⟨s, r, hs⟩ := List.append_of_mem h
  have hr := f.ancestors_of_suffix (hs ▸ List.suffix_append s _) rfl
  exact ancestors_ne_nil_iff.mp (hr ▸ List.cons_ne_nil a r)

theorem mem_ancestors_iff (ha : t.contains a) :
    a ∈ t.ancestors n ↔ t.ancestors a <:+ t.ancestors n where
  mp  := f.ancestors_suffix
  mpr h := by
    obtain ⟨_, hd⟩ := contains_iff.mp ha
    exact h.subset (by simp [ancestors_eq hd])

theorem ancestors_trans (h₁ : a ∈ t.ancestors m) (h₂ : m ∈ t.ancestors n) : a ∈ t.ancestors n :=
  (f.ancestors_suffix h₂).subset h₁

theorem ancestors_child (hp : t.node? p = some e) (hc : c ∈ e.children) :
    t.ancestors c = c :: t.ancestors p := by
  obtain ⟨d, hd, hl⟩ := f.child hp hc
  rw [ancestors_eq hd, ancestors_eq hp, hl]

theorem ancestors_nodup (n : NodeId) : (t.ancestors n).Nodup := by
  generalize hw : t.ancestors n = w
  induction w generalizing n
  case nil => exact .nil
  case cons m w hi =>
    have hs : t.ancestors m = m :: w := f.ancestors_of_suffix List.suffix_rfl hw
    refine List.nodup_cons.mpr ⟨fun hm => ?_, ?_⟩
    · -- a node that is an ancestor of itself would have more ancestors than it has
      obtain ⟨s, r, rfl⟩ := List.append_of_mem hm
      have hr : m :: r <:+ m :: (s ++ m :: r) := ⟨m :: s, rfl⟩
      have hl := congrArg List.length (hs.symm.trans (f.ancestors_of_suffix hr hw))
      simp only [List.length_cons, List.length_append] at hl
      omega
    · cases w
      case nil => exact .nil
      case cons p l => exact hi p (f.ancestors_of_suffix (List.suffix_cons m _) hw)

theorem length_ancestors_le (n : NodeId) : (t.ancestors n).length ≤ t.slots.size := by
  have hl : ∀ {a}, a ∈ t.ancestors n → ∃ d, t.node? a = some d :=
    fun h => contains_iff.mp (f.contains_of_mem_ancestors h)
  have hn : ((t.ancestors n).map (·.index)).Nodup := by
    refine List.pairwise_map.mpr <| (f.ancestors_nodup n).imp_of_mem fun h₁ h₂ hne hi => hne ?_
    obtain ⟨_, h₁⟩ := hl h₁
    obtain ⟨_, h₂⟩ := hl h₂
    exact eq_of_index_eq h₁ h₂ hi
  -- ancestors are in slots of their own, so there are no more of them than slots
  have hs : (t.ancestors n).map (·.index) ⊆ List.range t.slots.size := by
    intro i hi
    obtain ⟨a, ha, hi⟩ := List.mem_map.mp hi
    obtain ⟨_, hd⟩ := hl ha
    exact List.mem_range.mpr (hi ▸ index_lt_size hd)
  simpa using (hn.subperm hs).length_le

end Ancestors

end Forest

end BindingEngine.Tree
