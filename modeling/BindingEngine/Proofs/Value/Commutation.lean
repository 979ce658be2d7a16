import Mathlib.Tactic.SplitIfs
import BindingEngine.Proofs.Value.Equality
import BindingEngine.Proofs.Value.Frame

open scoped List

namespace BindingEngine.Value

variable {t u u' v w x y : Value} {s s' : Segment} {p q : Path} {items : List Value} {i j : Nat}

section Items

theorem length_setItem : (setItem items i v).length = max items.length (i + 1) := by
  simp only [setItem, List.length_set, List.length_append, List.length_replicate]
  omega

theorem setItem_setItem (items : List Value) (i : Nat) (v w : Value) :
    setItem (setItem items i v) i w = setItem items i w := by
  refine List.ext_getElem? fun j => ?_
  by_cases hj : j = i
  case pos => rw [hj, getElem?_setItem, getElem?_setItem]
  case neg =>
    rw [getElem?_setItem_of_ne hj, getElem?_setItem_of_ne hj, getElem?_setItem_of_ne hj, length_setItem,
      if_neg (by omega)]

theorem setItem_comm (items : List Value) (h : i ≠ j) (v w : Value) :
    setItem (setItem items i v) j w = setItem (setItem items j w) i v := by
  refine List.ext_getElem? fun k => ?_
  by_cases hi : k = i
  case pos =>
    subst hi
    rw [getElem?_setItem, getElem?_setItem_of_ne h, length_setItem, getElem?_setItem, if_neg (by omega)]
  case neg =>
    by_cases hj : k = j
    case pos =>
      subst hj
      rw [getElem?_setItem, getElem?_setItem_of_ne hi, length_setItem, getElem?_setItem,
        if_neg (by omega)]
    case neg =>
      rw [getElem?_setItem_of_ne hj, getElem?_setItem_of_ne hi, getElem?_setItem_of_ne hi,
        getElem?_setItem_of_ne hj, length_setItem, length_setItem]
      -- either way the nulls before the later of the two positions come in
      split_ifs <;> first | rfl | omega

end Items

section Steps

theorem put_put (t : Value) (s : Segment) (v w : Value) : (t.put s v).put s w = t.put s w := by
  cases s
  case key k => cases t <;> simp [put, Table.insert_insert, Table.insert]
  case index i => cases t <;> simp [put, setItem_setItem]

theorem next_put (t : Value) (s : Segment) (v : Value) : (t.put s v).next s = v := by
  rw [next, step?_put, Option.getD_some]

-- What comes in before a position is null, which counts as nothing.
theorem next_put_of_ne (ha : t.admits s) (hs : s' ≠ s) : (t.put s v).next s' = t.next s' := by
  rw [next, next]
  rcases step?_put_of_ne (v := v) ha hs with he | ⟨i, j, rfl, rfl, hl, hj⟩
  case inl => rw [he]
  case inr =>
    obtain ⟨hn, hu⟩ := step?_put_inserted (v := v) ha hl hj
    rw [hn, hu]
    rfl

theorem same_insert (entries : Table String Value) (k : String) (h : Same v w) :
    Same (map (Table.insert entries k v)) (map (Table.insert entries k w)) := by
  have hk : Table.keys (Table.insert entries k v) ~ Table.keys (Table.insert entries k w) :=
    (Table.perm_keys_insert entries k v).trans (Table.perm_keys_insert entries k w).symm
  refine .map hk fun k' a b ha hb => ?_
  rw [Table.get?_insert] at ha hb
  split at ha
  case isTrue hk =>
    rw [if_pos hk] at hb
    cases ha
    cases hb
    exact h
  case isFalse hk =>
    rw [if_neg hk, ha] at hb
    exact .of_eq (Option.some.inj hb)

theorem same_setItem (items : List Value) (i : Nat) (h : Same v w) :
    Same (array (setItem items i v)) (array (setItem items i w)) := by
  refine .array (length_setItem.trans length_setItem.symm) fun j a b ha hb => ?_
  by_cases hj : j = i
  case pos =>
    subst hj
    rw [getElem?_setItem] at ha hb
    cases ha
    cases hb
    exact h
  case neg =>
    rw [getElem?_setItem_of_ne hj] at ha hb
    rw [ha] at hb
    exact .of_eq (Option.some.inj hb)

theorem same_put (t : Value) (s : Segment) (h : Same v w) : Same (t.put s v) (t.put s w) := by
  cases s
  case key k =>
    cases t
    case map entries => exact same_insert entries k h
    all_goals exact same_insert [] k h
  case index i =>
    cases t
    case array items => exact same_setItem items i.toNat h
    all_goals exact same_setItem [] i.toNat h

theorem same_insert_insert (entries : Table String Value) {k k' : String} (hk : k ≠ k') :
    Same (map (Table.insert (Table.insert entries k v) k' w))
      (map (Table.insert (Table.insert entries k' w) k v)) := by
  refine .map (Table.perm_keys_insert_insert entries k k' v w) fun j a b ha hb => ?_
  have he : Table.get? (Table.insert (Table.insert entries k v) k' w) j =
      Table.get? (Table.insert (Table.insert entries k' w) k v) j := by
    simp only [Table.get?_insert]
    split
    case isFalse => rfl
    case isTrue hj => rw [if_neg fun h => hk (h.symm.trans hj)]
  exact .of_eq (Option.some.inj ((ha.symm.trans he).trans hb))

theorem same_put_put (hs : s ≠ s') (ha : t.admits s) (ha' : (t.put s v).admits s')
    (hb : t.admits s') : Same ((t.put s v).put s' w) ((t.put s' w).put s v) := by
  cases s
  case key k =>
    cases s'
    case key k' =>
      have hk : k ≠ k' := fun h => hs (congrArg _ h)
      cases t <;> simp [admits] at ha
      case map entries => exact same_insert_insert entries hk
      case null        => exact same_insert_insert [] hk
    case index j =>
      obtain ⟨entries, -, hp⟩ := entries_of_admits ha
      rw [hp] at ha'
      contradiction
  case index i =>
    cases s'
    case key k' =>
      obtain ⟨items, -, -, hp⟩ := items_of_admits ha
      rw [hp] at ha'
      contradiction
    case index j =>
      have hi : i.toNat ≠ j.toNat := fun h => hs (congrArg _ (UInt64.toNat_inj.mp h))
      cases t <;> simp [admits] at ha
      case array items => exact .of_eq (congrArg array (setItem_comm items hi v w))
      case null        => exact .of_eq (congrArg array (setItem_comm [] hi v w))

end Steps

-- Where the paths part, one of the two is put beside the other, and above that place both are put into
-- the same part.
theorem same_overwrite (hp : ¬p <+: q) (hq : ¬q <+: p) (hcp : t.check p = .ok ())
    (hcq : (overwrite v t p).check q = .ok ()) (hcq' : t.check q = .ok ()) :
    Same (overwrite w (overwrite v t p) q) (overwrite v (overwrite w t q) p) := by
  induction p generalizing t q
  case nil => exact absurd List.nil_prefix hp
  case cons s p hi =>
    cases q
    case nil => exact absurd List.nil_prefix hq
    case cons s' q =>
      obtain ⟨ha, hcp⟩ := check_cons_eq_ok_iff.mp hcp
      obtain ⟨ha', hcq⟩ := check_cons_eq_ok_iff.mp hcq
      obtain ⟨hb, hcq'⟩ := check_cons_eq_ok_iff.mp hcq'
      simp only [overwrite] at ha' hcq ⊢
      by_cases hs : s = s'
      case pos =>
        subst hs
        rw [List.cons_prefix_cons, eq_self_iff_true, true_and] at hp hq
        rw [next_put] at hcq
        rw [next_put, next_put, put_put, put_put]
        exact same_put t s (hi hp hq hcp hcq hcq')
      case neg =>
        rw [next_put_of_ne ha (Ne.symm hs), next_put_of_ne hb hs]
        exact same_put_put hs ha ha' hb

-- Updates at paths of which neither leads through the other end in the same value in either order, with
-- both new values at the ends of their paths. Values are equal when they are the same and regular.
theorem updates_commute (hp : ¬p <+: q) (hq : ¬q <+: p) (hx : t.set p v = .ok x)
    (hu : x.set q w = .ok u) (hy : t.set q w = .ok y) (hu' : y.set p v = .ok u') :
    Same u u' ∧ (Regular t → Regular v → Regular w → u.equals u') ∧
      (u.get? p = some v ∧ u.get? q = some w) ∧ u'.get? p = some v ∧ u'.get? q = some w := by
  obtain ⟨hcp, rfl⟩ := set_eq_ok_iff.mp hx
  obtain ⟨hcq, rfl⟩ := set_eq_ok_iff.mp hu
  obtain ⟨hcq', rfl⟩ := set_eq_ok_iff.mp hy
  obtain ⟨hcp', rfl⟩ := set_eq_ok_iff.mp hu'
  have hs : Same (overwrite w (overwrite v t p) q) (overwrite v (overwrite w t q) p) :=
    same_overwrite hp hq hcp hcq hcq'
  refine ⟨hs, fun ht hv hw => hs.equals ((ht.overwrite hv p).overwrite hw q), ⟨?_, get?_set hu⟩,
    get?_set hu', ?_⟩
  case refine_1 => exact get?_overwrite_of_some hcq hq hp (get?_set hx)
  case refine_2 => exact get?_overwrite_of_some hcp' hp hq (get?_set hy)

theorem regular_listing : Regular listing := by
  refine .map (by simp [Table.Unique, Table.keys]) fun k v hm => ?_
  rcases List.mem_cons.mp hm with he | hm
  case inl =>
    cases he
    exact .array fun v hv => List.mem_singleton.mp hv ▸ .int 1
  case inr =>
    cases List.mem_singleton.mp hm
    exact .string "a"

-- The item that comes in behind a null, and the key that comes in behind the others.
theorem listing_commutes : ∃ u u',
    (do (← listing.set [.key "list", .index 3] (int 9)).set [.key "date"] null) = .ok u ∧
    (do (← listing.set [.key "date"] null).set [.key "list", .index 3] (int 9)) = .ok u' ∧
    u.equals u' ∧ u.get? [.key "list", .index 3] = some (int 9) := by
  obtain ⟨-, he, ⟨hp, -⟩, -⟩ := updates_commute (t := listing) (p := [.key "list", .index 3])
    (q := [.key "date"]) (v := int 9) (w := null) (by decide) (by decide) rfl rfl rfl rfl
  exact ⟨_, _, rfl, rfl, he regular_listing (.int 9) .null, hp⟩

end BindingEngine.Value
