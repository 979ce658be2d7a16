import Mathlib.Data.List.Chain
import Mathlib.Data.List.Nodup
import BindingEngine.Proofs.Tree.Operation

namespace BindingEngine.Tree

variable {t : Tree} {n c p r : NodeId}

def run (t : Tree) (ops : List Operation) : Tree :=
  ops.foldl (fun t op => op.apply t) t

theorem Forest.run (f : t.Forest) (ops : List Operation) : (t.run ops).Forest := by
  induction ops generalizing t
  case nil => exact f
  case cons op ops hi => exact hi (op.forest f)

theorem parent?_eq (t : Tree) (n : NodeId) : t.parent? n = (t.ancestors n).tail.head? := by
  cases h : t.node? n <;> simp [parent?, ancestors, h]

theorem mem_children_iff : c ∈ t.children p ↔ ∃ e, t.node? p = some e ∧ c ∈ e.children := by
  cases h : t.node? p <;> simp [children, h]

namespace Forest

variable (f : t.Forest)

include f

theorem parent?_eq_some_iff : t.parent? c = some p ↔ c ∈ t.children p := by
  rw [mem_children_iff]
  constructor
  case mp =>
    intro h
    cases hd : t.node? c
    case none => simp [parent?, hd] at h
    case some d =>
      obtain ⟨l, hl⟩ := List.head?_eq_some_iff.mp (by simpa [parent?, hd] using h)
      obtain ⟨e, he, _, hc⟩ := f.parent hd hl
      exact ⟨e, he, hc⟩
  case mpr =>
    rintro ⟨e, he, hc⟩
    obtain ⟨d, hd, hl⟩ := f.child he hc
    simp [parent?, hd, hl]

theorem isChain_ancestors (n : NodeId) :
    (t.ancestors n).IsChain fun a b => t.parent? a = some b := by
  generalize hw : t.ancestors n = w
  induction w generalizing n
  case nil => exact .nil
  case cons m w hi =>
    have hs : t.ancestors m = m :: w := f.ancestors_of_suffix List.suffix_rfl hw
    cases w
    case nil => exact .singleton m
    case cons p l =>
      have hp : t.parent? m = some p := by rw [parent?_eq, hs]; rfl
      exact .cons_cons hp (hi p (f.ancestors_of_suffix (List.suffix_cons m _) hw))

theorem parent?_getLast? (h : (t.ancestors n).getLast? = some r) : t.parent? r = none := by
  obtain ⟨l, hl⟩ := List.getLast?_eq_some_iff.mp h
  have hr : [r] <:+ t.ancestors n := hl ▸ List.suffix_append l [r]
  rw [parent?_eq, f.ancestors_of_suffix hr rfl]
  rfl

end Forest

section Roots

def root? (t : Tree) (n : NodeId) : Option NodeId :=
  (t.ancestors n).getLast?

variable {a : NodeId} (f : t.Forest)

include f

theorem Forest.root?_of_mem_ancestors (h : a ∈ t.ancestors n) : t.root? a = t.root? n := by
  obtain ⟨way, hw⟩ := f.ancestors_suffix h
  have ha : t.ancestors a ≠ [] := ancestors_ne_nil_iff.mpr (f.contains_of_mem_ancestors h)
  rw [root?, root?, ← hw, List.getLast?_append_of_ne_nil way ha]

theorem Forest.not_mem_ancestors_of_root?_ne (h : t.root? n ≠ t.root? p) (ha : a ∈ t.ancestors n) :
    a ∉ t.ancestors p := fun hp =>
  h ((f.root?_of_mem_ancestors ha).symm.trans (f.root?_of_mem_ancestors hp))

theorem Forest.mem_ancestors_of_root? (h : t.root? n = some r) (ha : a ∈ t.ancestors n) :
    r ∈ t.ancestors a :=
  List.mem_of_getLast? ((f.root?_of_mem_ancestors ha).trans h)

end Roots

-- A tree tells of its nodes by their parents, by their children and by its slots. All three agree:
-- 1. a node is the child of its parent, is listed there once, and is nobody else's child
-- 2. the way from a node to its parent, to the parent of that one and so on passes no node twice and
--    comes to a node without a parent
-- 3. the free slots are those without a node, and none of them is listed twice
-- 4. no node declares a context of a reserved name
structure Linked (t : Tree) : Prop where
  parent?_iff (c p : NodeId) : t.parent? c = some p ↔ t.contains p ∧ c ∈ t.children p
  count_children (c p : NodeId) : t.parent? c = some p → (t.children p).count c = 1
  up (n : NodeId) : t.contains n → ∃ way r, (n :: way).IsChain (fun a b => t.parent? a = some b) ∧
    (n :: way).Nodup ∧ (n :: way).getLast? = some r ∧ t.contains r ∧ t.parent? r = none
  free_nodup : t.free.Nodup
  mem_free_iff (i : Nat) : i ∈ t.free ↔ ∃ generation, t.slots[i]? = some ⟨generation, none⟩
  declared (n : NodeId) (d : Node) (x : Context) :
    t.node? n = some d → d.context = some x → ¬isReserved x.id

theorem Forest.linked (f : t.Forest) : t.Linked where
  parent?_iff c p := by
    rw [f.parent?_eq_some_iff]
    refine (and_iff_right_of_imp fun hc => ?_).symm
    obtain ⟨e, he, _⟩ := mem_children_iff.mp hc
    exact contains_iff.mpr ⟨e, he⟩
  count_children c p h := by
    have hc := f.parent?_eq_some_iff.mp h
    obtain ⟨e, he, _⟩ := mem_children_iff.mp hc
    have hn : (t.children p).Nodup := children_eq he ▸ f.children_nodup he
    exact List.count_eq_one_of_mem hn hc
  up n hn := by
    obtain ⟨d, hd⟩ := contains_iff.mp hn
    have ha := ancestors_eq hd
    obtain ⟨r, hr⟩ : ∃ r, (n :: d.lineage).getLast? = some r := ⟨_, List.getLast?_cons⟩
    refine ⟨d.lineage, r, ha ▸ f.isChain_ancestors n, ha ▸ f.ancestors_nodup n, hr, ?_, ?_⟩
    case refine_1 => exact f.contains_of_mem_ancestors (ha ▸ List.mem_of_getLast? hr)
    case refine_2 => exact f.parent?_getLast? (ha ▸ hr)
  free_nodup := f.freeList.nodup
  mem_free_iff _ := f.freeList.mem_iff
  declared _ _ _ := f.declared

-- Whatever is tried, with names that are in use or not, a tree stays one forest.
theorem run_linked (ops : List Operation) : (run {} ops).Linked :=
  (Forest.empty.run ops).linked

end BindingEngine.Tree
