import BindingEngine.Table

open scoped List

namespace BindingEngine.Table

variable {α β : Type} [DecidableEq α]

theorem get?_insert (t : Table α β) (k k' : α) (b : β) :
    get? (insert t k b) k' = if k' = k then some b else get? t k' := by
  split
  case isTrue h  => exact h ▸ get?_insert_self t k b
  case isFalse h => exact get?_insert_of_ne t b h

theorem get?_erase (t : Table α β) (k k' : α) :
    get? (erase t k) k' = if k' = k then none else get? t k' := by
  split
  case isTrue h  => exact h ▸ get?_erase_self t k
  case isFalse h => exact get?_erase_of_ne t h

theorem mem_keys_iff (t : Table α β) (k : α) : k ∈ keys t ↔ (get? t k).isSome := by
  induction t
  case nil => simp [keys]
  case cons entry t hi =>
    obtain ⟨k', b⟩ := entry
    have hi : k ∈ t.map Prod.fst ↔ (get? t k).isSome := hi
    by_cases h : k = k' <;> simp [keys, get?_cons, h, hi]

theorem unique_erase {t : Table α β} (h : Unique t) (k : α) : Unique (erase t k) := by
  have hs : List.Sublist (keys (erase t k)) (keys t) := List.filter_sublist.map Prod.fst
  exact hs.nodup h

theorem keys_erase (t : Table α β) (k : α) : keys (erase t k) = (keys t).filter (· ≠ k) := by
  rw [keys, keys, List.filter_map]
  rfl

theorem keys_insert_of_mem {t : Table α β} {k : α} (h : k ∈ keys t) (b : β) :
    keys (insert t k b) = keys t := by
  induction t
  case nil => simp [keys] at h
  case cons entry t hi =>
    obtain ⟨k', b'⟩ := entry
    by_cases hk : k' = k
    case pos => simp [insert, keys, hk]
    case neg =>
      have hm : k ∈ keys t := by simpa [keys, Ne.symm hk] using h
      have hi : (insert t k b).map Prod.fst = t.map Prod.fst := hi hm
      simp [insert, keys, hk, hi]

theorem keys_insert_of_not_mem {t : Table α β} {k : α} (h : k ∉ keys t) (b : β) :
    keys (insert t k b) = keys t ++ [k] := by
  induction t
  case nil => rfl
  case cons entry t hi =>
    obtain ⟨k', b'⟩ := entry
    simp only [keys, List.map_cons, List.mem_cons, not_or] at h
    have hi : (insert t k b).map Prod.fst = t.map Prod.fst ++ [k] := hi h.2
    simp [insert, keys, Ne.symm h.1, hi]

theorem erase_of_not_mem {t : Table α β} {k : α} (h : get? t k = none) : erase t k = t := by
  refine List.filter_eq_self.mpr fun entry he => ?_
  have hm : entry.1 ∈ keys t := List.mem_map_of_mem he
  rw [mem_keys_iff] at hm
  refine decide_eq_true fun hk => ?_
  rw [hk, h] at hm
  contradiction

theorem insert_of_not_mem {t : Table α β} {k : α} (h : k ∉ keys t) (b : β) :
    insert t k b = t ++ [(k, b)] := by
  induction t
  case nil => rfl
  case cons entry t hi =>
    obtain ⟨k', b'⟩ := entry
    simp only [keys, List.map_cons, List.mem_cons, not_or] at h
    simp only [insert, if_neg (Ne.symm h.1), hi h.2, List.cons_append]

theorem insert_insert (t : Table α β) (k : α) (b b' : β) :
    insert (insert t k b) k b' = insert t k b' := by
  induction t
  case nil => simp [insert]
  case cons entry t hi =>
    obtain ⟨k', c⟩ := entry
    by_cases hk : k' = k <;> simp [insert, hk, hi]

theorem perm_keys_insert (t : Table α β) (k : α) (b : β) :
    keys (insert t k b) ~ (keys t).insert k := by
  by_cases hk : k ∈ keys t
  case pos => rw [keys_insert_of_mem hk, List.insert_of_mem hk]
  case neg =>
    rw [keys_insert_of_not_mem hk, List.insert_of_not_mem hk]
    exact List.perm_append_singleton k (keys t)

theorem perm_keys_insert_insert (t : Table α β) (k k' : α) (b b' : β) :
    keys (insert (insert t k b) k' b') ~ keys (insert (insert t k' b') k b) := by
  have h (k k' : α) (b b' : β) :
      keys (insert (insert t k b) k' b') ~ ((keys t).insert k).insert k' :=
    (perm_keys_insert _ k' b').trans ((perm_keys_insert t k b).insert k')
  exact (h k k' b b').trans ((List.perm_insert_swap k' k (keys t)).trans (h k' k b' b).symm)

theorem get?_of_mem {t : Table α β} {k : α} {b : β} (hu : Unique t) (h : (k, b) ∈ t) :
    get? t k = some b := by
  induction t
  case nil => contradiction
  case cons entry t hi =>
    obtain ⟨k', b'⟩ := entry
    obtain ⟨hk, hu⟩ : k' ∉ keys t ∧ Unique t := List.nodup_cons.mp hu
    rw [get?_cons]
    cases h
    case head => exact if_pos rfl
    case tail h =>
      have hne : k ≠ k' := fun he => hk (he ▸ List.mem_map_of_mem h)
      rw [if_neg hne, hi hu h]

theorem mem_of_get? {t : Table α β} {k : α} {b : β} (h : get? t k = some b) : (k, b) ∈ t := by
  induction t
  case nil => contradiction
  case cons entry t hi =>
    obtain ⟨k', b'⟩ := entry
    rw [get?_cons] at h
    split at h
    case isTrue hk => simp [hk, Option.some.inj h]
    case isFalse => exact List.mem_cons_of_mem _ (hi h)

theorem get?_map {γ : Type} (t : Table α β) (f : β → γ) (k : α) :
    get? (t.map fun entry => (entry.1, f entry.2)) k = (get? t k).map f := by
  induction t
  case nil => rfl
  case cons entry t hi =>
    obtain ⟨k', b⟩ := entry
    simp only [List.map_cons, get?_cons, hi]
    split <;> rfl

theorem ext_of_keys {t t' : Table α β} (hu : Unique t) (hk : keys t' = keys t)
    (h : ∀ k, get? t' k = get? t k) : t' = t := by
  induction t generalizing t'
  case nil => exact List.map_eq_nil_iff.mp hk
  case cons entry t hi =>
    obtain ⟨k, b⟩ := entry
    cases t'
    case nil => contradiction
    case cons entry' t' =>
      obtain ⟨k', b'⟩ := entry'
      obtain ⟨rfl, ht⟩ : k' = k ∧ keys t' = keys t := List.cons.inj hk
      obtain ⟨hn, hu⟩ : k' ∉ keys t ∧ Unique t := List.nodup_cons.mp hu
      have hb : b' = b := by simpa [get?_cons] using h k'
      have ht : t' = t := hi hu ht fun j => by
        by_cases hj : j = k'
        case neg => simpa [get?_cons, hj] using h j
        case pos =>
          -- neither of the two has the key a second time
          have hn' : k' ∉ keys t' := ht ▸ hn
          rw [mem_keys_iff, Option.not_isSome_iff_eq_none] at hn hn'
          rw [hj, hn, hn']
      rw [hb, ht]

end BindingEngine.Table
