import BindingEngine.Proofs.Tree.Forest

namespace BindingEngine

def Node.without (d : Node) (n : NodeId) : Node :=
  { d with children := d.children.filter (· ≠ n) }

theorem Node.without_of_not_mem {d : Node} {n : NodeId} (h : n ∉ d.children) : d.without n = d := by
  have hf : d.children.filter (· ≠ n) = d.children :=
    List.filter_eq_self.mpr fun c hc => decide_eq_true fun (hn : c = n) => h (hn ▸ hc)
  rw [Node.without, hf]

namespace Tree

variable {t : Tree} {n m c p : NodeId} {d e : Node} {k : Nat}

def unlink (t : Tree) (n : NodeId) : Tree :=
  match t.parent? n with
  | some p => t.modify p (·.without n)
  | none => t

theorem remove_eq (t : Tree) (n : NodeId) :
    t.remove n = (t.subtree n, (t.subtree n).foldl release (t.unlink n)) :=
  rfl

namespace Forest

variable (f : t.Forest)

include f

theorem mem_below_iff (hn : t.contains n) :
    m ∈ t.below k n ↔
      t.ancestors n <:+ t.ancestors m ∧ (t.ancestors m).length < k + (t.ancestors n).length := by
  induction k generalizing n
  case zero =>
    simp only [below, List.not_mem_nil, false_iff, not_and]
    intro hs
    have := hs.length_le
    omega
  case succ k hi =>
    obtain ⟨e, he⟩ := contains_iff.mp hn
    simp only [below, children_eq he, List.mem_append, List.mem_flatMap, List.mem_singleton]
    constructor
    case mp =>
      intro h
      cases h
      case inl h =>
        obtain ⟨c, hc, hm⟩ := h
        obtain ⟨d, hd, _⟩ := f.child he hc
        have ha := f.ancestors_child he hc
        obtain ⟨hs, hl⟩ := (hi (contains_iff.mpr ⟨d, hd⟩)).mp hm
        rw [ha] at hs hl
        exact ⟨(List.suffix_cons c _).trans hs, by simp at hl; omega⟩
      case inr h => exact h ▸ ⟨List.suffix_rfl, by omega⟩
    case mpr =>
      rintro ⟨⟨s, hs⟩, hl⟩
      -- the way down from `n` to `m` is empty, or begins with a child of `n`
      rcases List.eq_nil_or_concat s with h | ⟨s, c, h⟩
      case inl =>
        right
        have hh := head?_ancestors hn
        rw [h, List.nil_append] at hs
        have hm : t.contains m := ancestors_ne_nil_iff.mp <| hs ▸ ancestors_ne_nil_iff.mpr hn
        have hm := head?_ancestors hm
        rw [← hs, hh] at hm
        exact (Option.some.inj hm).symm
      case inr =>
        left
        have hc : c :: t.ancestors n <:+ t.ancestors m := ⟨s, by rw [← hs, h]; simp⟩
        have hc := f.ancestors_of_suffix hc rfl
        have hl' : c ∈ t.ancestors c := hc ▸ List.mem_cons_self
        obtain ⟨d, hd⟩ := contains_iff.mp (f.contains_of_mem_ancestors hl')
        have hd' : d.lineage = n :: e.lineage := by
          simpa [ancestors_eq hd, ancestors_eq he] using hc
        obtain ⟨e', he', _, hm⟩ := f.parent hd hd'
        refine ⟨c, ?child, ?below⟩
        case child =>
          rw [he] at he'
          exact Option.some.inj he' ▸ hm
        case below =>
          refine (hi (contains_iff.mpr ⟨d, hd⟩)).mpr ⟨?_, ?_⟩
          · exact hc ▸ ⟨s, by rw [← hs, h]; simp⟩
          · rw [hc, List.length_cons]
            omega

theorem mem_subtree_iff : m ∈ t.subtree n ↔ n ∈ t.ancestors m := by
  unfold subtree
  split
  case isFalse hn => simpa using mt f.contains_of_mem_ancestors hn
  case isTrue hn =>
    rw [f.mem_below_iff hn, f.mem_ancestors_iff hn]
    -- the fuel reaches everywhere, since no way is longer than there are slots
    refine and_iff_left_of_imp fun _ => ?_
    have := f.length_ancestors_le m
    have := List.length_pos_iff.mpr (ancestors_ne_nil_iff.mpr hn)
    omega

theorem contains_of_mem_subtree (h : m ∈ t.subtree n) : t.contains m := by
  apply ancestors_ne_nil_iff.mp
  intro hm
  simp [f.mem_subtree_iff, hm] at h

theorem below_pairwise (hn : t.contains n) :
    (t.below k n).Pairwise fun a b => a ∉ t.ancestors b := by
  induction k generalizing n
  case zero => exact .nil
  case succ k hi =>
    obtain ⟨e, he⟩ := contains_iff.mp hn
    have hc : ∀ {c}, c ∈ e.children → t.contains c := by
      intro c hc
      obtain ⟨d, hd, _⟩ := f.child he hc
      exact contains_iff.mpr ⟨d, hd⟩
    simp only [below, children_eq he]
    refine List.pairwise_append.mpr ⟨?below, List.pairwise_singleton _ _, ?self⟩
    case below =>
      refine List.pairwise_flatMap.mpr ⟨fun c hm => hi (hc hm), ?_⟩
      refine (f.children_nodup he).imp_of_mem fun {c₁ c₂} h₁ h₂ hne x hx y hy hxy => hne ?_
      -- the ways of both children are ends of the way of the same node, and equally long
      have hs₁ := ((f.mem_below_iff (hc h₁)).mp hx).1.trans (f.ancestors_suffix hxy)
      have hs₂ := ((f.mem_below_iff (hc h₂)).mp hy).1
      rw [f.ancestors_child he h₁] at hs₁
      rw [f.ancestors_child he h₂] at hs₂
      have hs := List.suffix_of_suffix_length_le hs₁ hs₂ (by simp)
      have hs := hs.eq_of_length (by simp)
      injection hs
    case self =>
      -- what is below a child has a longer way than `n`
      intro x hx y hy hxy
      obtain ⟨c, hm, hx⟩ := List.mem_flatMap.mp hx
      rw [List.mem_singleton.mp hy] at hxy
      have hs := (((f.mem_below_iff (hc hm)).mp hx).1.trans (f.ancestors_suffix hxy)).length_le
      rw [f.ancestors_child he hm, List.length_cons] at hs
      omega

theorem subtree_pairwise (n : NodeId) : (t.subtree n).Pairwise fun a b => a ∉ t.ancestors b := by
  unfold subtree
  split
  case isTrue hn => exact f.below_pairwise hn
  case isFalse => exact .nil

theorem subtree_nodup (n : NodeId) : (t.subtree n).Nodup := by
  refine (f.subtree_pairwise n).imp_of_mem fun ha _ hab he => hab ?_
  exact he ▸ mem_ancestors_self (f.contains_of_mem_subtree ha)

theorem node?_unlink (m : NodeId) :
    (t.unlink n).node? m = (t.node? m).map (·.without n) := by
  have hu : t.parent? n ≠ some m → t.node? m = (t.node? m).map (·.without n) := by
    intro hne
    cases he : t.node? m
    case none => rfl
    case some e =>
      have hn : n ∉ e.children := by
        intro hn
        obtain ⟨d, hd, hl⟩ := f.child he hn
        exact hne (by simp [parent?, hd, hl])
      rw [Option.map_some, Node.without_of_not_mem hn]
  unfold unlink
  split
  case h_1 p hn =>
    rw [node?_modify]
    split
    case isTrue h => rw [h]
    case isFalse h => exact hu fun hm => h (by simpa [hn] using hm.symm)
  case h_2 hn => exact hu (by simp [hn])

theorem contains_unlink (m : NodeId) : (t.unlink n).contains m = t.contains m := by
  simp [contains, f.node?_unlink]

theorem node?_remove (m : NodeId) :
    (t.remove n).2.node? m =
      if n ∈ t.ancestors m then none else (t.node? m).map (·.without n) := by
  rw [remove_eq, node?_foldl_release, f.node?_unlink]
  cases hm : t.node? m
  case none => simp
  case some d =>
    -- slots are emptied, but no other live node is in the slot of one that is removed
    have hi : m.index ∈ (t.subtree n).map (·.index) ↔ n ∈ t.ancestors m := by
      rw [List.mem_map, ← f.mem_subtree_iff]
      constructor
      case mp =>
        rintro ⟨r, hr, hi⟩
        obtain ⟨_, hd⟩ := contains_iff.mp (f.contains_of_mem_subtree hr)
        exact eq_of_index_eq hd hm hi ▸ hr
      case mpr => exact fun h => ⟨m, h, rfl⟩
    simp only [hi]

end Forest

end Tree

end BindingEngine
