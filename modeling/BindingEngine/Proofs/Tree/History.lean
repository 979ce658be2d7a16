import BindingEngine.Proofs.Scope.Context
import BindingEngine.Proofs.Tree.Handle

namespace BindingEngine.Tree

variable {t t' t'' : Tree} {n m p c : NodeId} {d e : Node}

section Ancestors

theorem ancestors_setHandoff {v : Value} : (t.setHandoff m v).ancestors n = t.ancestors n :=
  ancestors_modify fun _ => rfl

variable (f : t.Forest)

include f

theorem ancestors_createRoot : t.createRoot.2.ancestors n =
    if n = t.createRoot.1 then [n] else t.ancestors n := by
  have hi : Inserted t {} t.createRoot.1 t.createRoot.2 := f.freeList.inserted {}
  simp only [ancestors, hi.node?]
  by_cases hn : n = t.createRoot.1 <;> simp [hn]

theorem ancestors_addChild (h : t.addChild p = .ok (c, t')) : t'.ancestors n =
    if n = c then c :: t.ancestors p else t.ancestors n := by
  obtain ⟨e, a⟩ := f.freeList.added h
  simp only [ancestors, a.node?]
  by_cases hn : n = c
  case pos => simp [hn, a.parent]
  case neg => by_cases hp : n = p <;> simp [hn, hp, a.ne a.parent, a.parent]

theorem ancestors_remove : (t.remove p).2.ancestors n =
    if p ∈ t.ancestors n then [] else t.ancestors n := by
  by_cases hp : p ∈ t.ancestors n
  case pos =>
    have hn : (t.remove p).2.node? n = none := by rw [f.node?_remove, if_pos hp]
    rw [if_pos hp, ancestors, hn]
  case neg =>
    rw [if_neg hp]
    apply ancestors_congr
    rw [f.node?_remove, if_neg hp, Option.map_map]
    rfl

theorem not_contains_createRoot : ¬t.contains t.createRoot.1 := by
  have hi : Inserted t {} t.createRoot.1 t.createRoot.2 := f.freeList.inserted {}
  simp [contains, hi.new]

theorem kept_or_spent (h : t.contains n) (op : Operation) :
    (op.apply t).ancestors n = t.ancestors n ∨ (op.apply t).Spent n := by
  obtain ⟨d, hd⟩ := contains_iff.mp h
  cases op
  case createRoot =>
    have hi : Inserted t {} t.createRoot.1 t.createRoot.2 := f.freeList.inserted {}
    exact .inl ((ancestors_createRoot f).trans (if_neg (hi.ne hd)))
  case addChild p =>
    simp only [Operation.apply]
    split
    case h_2 => exact .inl rfl
    case h_1 hp =>
      obtain ⟨_, a⟩ := f.freeList.added hp
      exact .inl ((ancestors_addChild f hp).trans (if_neg (a.ne hd)))
  case declare m x =>
    simp only [Operation.apply]
    split
    case h_2 => exact .inl rfl
    case h_1 hx => exact .inl (ancestors_declare hx)
  case setContext => exact .inl ancestors_setContext
  case setHandoff => exact .inl ancestors_setHandoff
  case remove p =>
    by_cases hp : p ∈ t.ancestors n
    case pos => exact .inr (f.spent_remove (f.mem_subtree_iff.mpr hp))
    case neg => exact .inl ((ancestors_remove f).trans (if_neg hp))

end Ancestors

theorem isSome_handoff_of_apply (f : t.Forest) {op : Operation} (ho : ∀ n v, op ≠ .setHandoff n v)
    (h : ((op.apply t).context? m handoffId).isSome) : (t.context? m handoffId).isSome := by
  cases op
  case createRoot =>
    have hi : Inserted t {} t.createRoot.1 t.createRoot.2 := f.freeList.inserted {}
    rw [Operation.apply, context?_eq, hi.node?] at h
    split at h
    case isTrue => simp [Node.value?] at h
    case isFalse => exact context?_eq ▸ h
  case addChild p =>
    simp only [Operation.apply] at h
    split at h
    case h_2 => exact h
    case h_1 hp =>
      obtain ⟨e, a⟩ := f.freeList.added hp
      rw [context?_eq, a.node?] at h
      split at h
      case isTrue => simp [Node.value?] at h
      case isFalse =>
        split at h
        case isTrue hm => simpa [context?_eq, hm, a.parent, Node.value?] using h
        case isFalse => exact context?_eq ▸ h
  case declare n x =>
    simp only [Operation.apply] at h
    split at h
    case h_2 => exact h
    case h_1 hx =>
      obtain ⟨hr, _⟩ := declare_eq_ok_iff.mp hx
      have hn : ¬(m = n ∧ handoffId = x.id) := fun hm => by simp [isReserved, ← hm.2] at hr
      rwa [context?_declare hx, if_neg hn] at h
  case setContext n id v =>
    by_cases hn : (t.context? n id).isSome
    case pos => exact (isSome_context?_setContext hn).symm.trans h
    case neg =>
      rwa [Operation.apply, Tree.setContext, if_pos (by simpa using hn)] at h
  case setHandoff n v => exact absurd rfl (ho n v)
  case remove p =>
    rw [Operation.apply, context?_eq, f.node?_remove] at h
    split at h
    case isTrue => contradiction
    case isFalse =>
      cases hm : t.node? m
      case none => simp [hm] at h
      case some d => simpa [context?_eq, hm, Node.value?, Node.without] using h

section Roots

def IsRoot (t : Tree) (n : NodeId) : Prop :=
  t.contains n ∧ t.parent? n = none

theorem isRoot_iff : t.IsRoot n ↔ t.ancestors n = [n] := by
  cases h : t.node? n <;> simp [IsRoot, contains, parent?, ancestors, h]

variable (f : t.Forest)

include f

theorem IsRoot.not_mem_children (h : t.IsRoot n) (hm : t.node? m = some d) : n ∉ d.children := by
  intro hn
  have ha := f.ancestors_child hm hn
  rw [isRoot_iff.mp h, ancestors_eq hm] at ha
  simp at ha

theorem isRoot_createRoot : t.createRoot.2.IsRoot n ↔ n = t.createRoot.1 ∨ t.IsRoot n := by
  rw [isRoot_iff, isRoot_iff, ancestors_createRoot f]
  by_cases hn : n = t.createRoot.1 <;> simp [hn]

theorem isRoot_remove : (t.remove p).2.IsRoot n ↔ t.IsRoot n ∧ n ≠ p := by
  rw [isRoot_iff, isRoot_iff, ancestors_remove f]
  split
  case isTrue hp =>
    simp only [List.nil_eq, reduceCtorEq, false_iff, not_and, ne_eq, Decidable.not_not]
    intro hn
    simpa [hn, eq_comm] using hp
  case isFalse hp =>
    refine (and_iff_left_of_imp fun hn he => hp ?_).symm
    rw [hn, he]
    exact List.mem_singleton_self p

theorem IsRoot.eq_of_mem_ancestors (hn : t.IsRoot n) (hm : t.IsRoot m)
    (hna : n ∈ t.ancestors c) (hma : m ∈ t.ancestors c) : n = m := by
  have hs := f.ancestors_suffix hna
  have hs' := f.ancestors_suffix hma
  rw [isRoot_iff.mp hn] at hs
  rw [isRoot_iff.mp hm] at hs'
  rcases List.suffix_or_suffix_of_suffix hs hs' with h | h
  case inl => exact List.mem_singleton.mp (h.subset (List.mem_singleton_self n))
  case inr => exact (List.mem_singleton.mp (h.subset (List.mem_singleton_self m))).symm

def Operation.SparesRoots (t : Tree) : Operation → Prop
  | createRoot => False
  | remove n => ¬t.IsRoot n
  | _ => True

theorem isRoot_apply {op : Operation} (h : op.SparesRoots t) :
    (op.apply t).IsRoot n ↔ t.IsRoot n := by
  cases op
  case createRoot => exact absurd h id
  case addChild p =>
    simp only [Operation.apply]
    split
    case h_2 => rfl
    case h_1 hp =>
      obtain ⟨e, a⟩ := f.freeList.added hp
      rw [isRoot_iff, isRoot_iff, ancestors_addChild f hp]
      split
      case isFalse => rfl
      case isTrue hn => simp [hn, ancestors, a.new, a.parent]
  case declare m x =>
    simp only [Operation.apply]
    split
    case h_2 => rfl
    case h_1 hx => rw [isRoot_iff, isRoot_iff, ancestors_declare hx]
  case setContext => rw [isRoot_iff, isRoot_iff, Operation.apply, ancestors_setContext]
  case setHandoff => rw [isRoot_iff, isRoot_iff, Operation.apply, ancestors_setHandoff]
  case remove p =>
    exact (isRoot_remove f).trans (and_iff_left_of_imp fun hn he => h (he ▸ hn))

end Roots

-- What some operations make of a tree: a forest, in which every node that was there is there with
-- the ancestors that it had, unless it is spent. What is spent stays so.
structure Later (t t' : Tree) : Prop where
  forest : t'.Forest
  spent {n : NodeId} : t.Spent n → t'.Spent n
  kept_or_spent {n : NodeId} : t.contains n → t'.ancestors n = t.ancestors n ∨ t'.Spent n

namespace Later

theorem refl (f : t.Forest) : Later t t :=
  ⟨f, id, fun _ => .inl rfl⟩

theorem apply (f : t.Forest) (op : Operation) : Later t (op.apply t) :=
  ⟨op.forest f, fun h => h.apply op, fun h => Tree.kept_or_spent f h op⟩

theorem trans (h : Later t t') (h' : Later t' t'') : Later t t'' where
  forest := h'.forest
  spent hn := h'.spent (h.spent hn)
  kept_or_spent hn := by
    cases h.kept_or_spent hn
    case inr hs => exact .inr (h'.spent hs)
    case inl ha =>
      have hc := ancestors_ne_nil_iff.mp (ha ▸ ancestors_ne_nil_iff.mpr hn)
      exact (h'.kept_or_spent hc).imp_left (·.trans ha)

variable (h : Later t t')

include h

theorem ancestors_eq (hn : t.contains n) (hn' : t'.contains n) : t'.ancestors n = t.ancestors n :=
  (h.kept_or_spent hn).resolve_right fun hs => hs.not_contains hn'

theorem spent_of_not_contains (hn : t.contains n) (hn' : ¬t'.contains n) : t'.Spent n :=
  (h.kept_or_spent hn).resolve_left fun ha =>
    hn' (ancestors_ne_nil_iff.mp (ha ▸ ancestors_ne_nil_iff.mpr hn))

theorem not_contains_of_mem_ancestors (hn : n ∈ t.ancestors m) (hg : ¬t'.contains n) :
    ¬t'.contains m := by
  intro hm
  have hc : t.contains m := ancestors_ne_nil_iff.mp (List.ne_nil_of_mem hn)
  exact hg (h.forest.contains_of_mem_ancestors (h.ancestors_eq hc hm ▸ hn))

theorem isRoot_or_spent (hn : t.IsRoot n ∨ t.Spent n) : t'.IsRoot n ∨ t'.Spent n := by
  cases hn
  case inr hs => exact .inr (h.spent hs)
  case inl hr =>
    refine (h.kept_or_spent hr.1).imp_left fun ha => isRoot_iff.mpr ?_
    rw [ha, isRoot_iff.mp hr]

end Later

theorem Later.unrelated (f : t.Forest) (h : Later t.createRoot.2 t') (ha : t.contains n)
    (hn : n ∈ t'.ancestors m) : t.createRoot.1 ∉ t'.ancestors m := by
  intro hm
  have hnew := not_contains_createRoot f
  have hne : n ≠ t.createRoot.1 := fun he => hnew (he ▸ ha)
  have hr : t'.ancestors t.createRoot.1 = [t.createRoot.1] := by
    have hc := ((isRoot_createRoot f).mpr (.inl rfl)).1
    rw [h.ancestors_eq hc (h.forest.contains_of_mem_ancestors hm), ancestors_createRoot f, if_pos rfl]
  have hn' : t'.ancestors n = t.ancestors n := by
    have hc : t.createRoot.2.ancestors n = t.ancestors n := by rw [ancestors_createRoot f, if_neg hne]
    have hc' := ancestors_ne_nil_iff.mp (hc ▸ ancestors_ne_nil_iff.mpr ha)
    rw [h.ancestors_eq hc' (h.forest.contains_of_mem_ancestors hn), hc]
  -- the way of one of them is the end of that of the other
  rcases List.suffix_or_suffix_of_suffix (h.forest.ancestors_suffix hn)
    (h.forest.ancestors_suffix hm) with hs | hs
  all_goals rw [hr, hn'] at hs
  case inl => exact hne (List.mem_singleton.mp (hs.subset (mem_ancestors_self ha)))
  case inr => exact hnew (f.contains_of_mem_ancestors (hs.subset (List.mem_singleton_self _)))

end BindingEngine.Tree
