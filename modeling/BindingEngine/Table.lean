namespace BindingEngine

abbrev Table (α β : Type) := List (α × β)

namespace Table

variable {α β γ : Type} [DecidableEq α]

def get? (t : Table α β) (k : α) : Option β := t.lookup k

def contains (t : Table α β) (k : α) : Bool := (get? t k).isSome

def keys (t : Table α β) : List α := t.map Prod.fst

def Unique (t : Table α β) : Prop := (keys t).Nodup

def insert : Table α β → α → β → Table α β
  | [], k, b => [(k, b)]
  | (k', b') :: t, k, b => if k' = k then (k', b) :: t else (k', b') :: insert t k b

def erase (t : Table α β) (k : α) : Table α β := t.filter fun entry => entry.1 ≠ k

def extend (t new : Table α β) : Table α β :=
  new.foldl (fun t entry => insert t entry.1 entry.2) t

@[simp] theorem get?_nil (k : α) : get? ([] : Table α β) k = none := rfl

theorem get?_cons (k' : α) (b : β) (t : Table α β) (k : α) :
    get? ((k', b) :: t) k = if k = k' then some b else get? t k := by
  by_cases h : k = k'
  · simp [get?, h]
  · simp [get?, List.lookup_cons, beq_false_of_ne h, h]

@[simp] theorem get?_insert_self (t : Table α β) (k : α) (b : β) :
    get? (insert t k b) k = some b := by
  induction t with
  | nil => simp [insert, get?_cons]
  | cons entry t ih =>
    obtain ⟨k', b'⟩ := entry
    by_cases h : k' = k
    · simp [insert, h, get?_cons]
    · simp [insert, h, get?_cons, ih, Ne.symm h]

theorem get?_insert_of_ne (t : Table α β) {k k' : α} (b : β) (h : k' ≠ k) :
    get? (insert t k b) k' = get? t k' := by
  induction t with
  | nil => simp [insert, get?_cons, h]
  | cons entry t ih =>
    obtain ⟨k'', b''⟩ := entry
    by_cases h' : k'' = k
    · subst h'; simp [insert, get?_cons, h]
    · simp [insert, h', get?_cons, ih]

theorem mem_keys_insert (t : Table α β) (k k' : α) (b : β) :
    k' ∈ keys (insert t k b) ↔ k' = k ∨ k' ∈ keys t := by
  induction t with
  | nil => simp [insert, keys]
  | cons entry t ih =>
    obtain ⟨k'', b''⟩ := entry
    by_cases h : k'' = k
    · subst h; simp [insert, keys]
    · simp only [insert, h, if_false, keys, List.map_cons, List.mem_cons]
      rw [show k' ∈ List.map Prod.fst (insert t k b) ↔ _ from ih]
      exact or_left_comm

theorem unique_insert {t : Table α β} (h : Unique t) (k : α) (b : β) : Unique (insert t k b) := by
  induction t with
  | nil => simp [Unique, insert, keys]
  | cons entry t ih =>
    obtain ⟨k', b'⟩ := entry
    simp only [Unique, keys, List.map_cons, List.nodup_cons] at h
    by_cases h' : k' = k
    · subst h'; simpa [Unique, insert, keys] using h
    · simp only [Unique, insert, h', if_false, keys, List.map_cons, List.nodup_cons]
      refine ⟨fun hm => ?_, ih h.2⟩
      rcases (mem_keys_insert t k k' b).1 hm with rfl | hm
      · exact h' rfl
      · exact h.1 hm

theorem get?_erase_self (t : Table α β) (k : α) : get? (erase t k) k = none := by
  induction t with
  | nil => rfl
  | cons entry t ih =>
    obtain ⟨k', b'⟩ := entry
    by_cases h : k' = k
    · simpa [erase, h] using ih
    · rw [erase, List.filter_cons_of_pos (by simpa using h), get?_cons, if_neg (Ne.symm h)]
      exact ih

theorem get?_erase_of_ne (t : Table α β) {k k' : α} (h : k' ≠ k) :
    get? (erase t k) k' = get? t k' := by
  induction t with
  | nil => rfl
  | cons entry t ih =>
    obtain ⟨k'', b''⟩ := entry
    by_cases h' : k'' = k
    · subst h'
      rw [erase, List.filter_cons_of_neg (by simp), get?_cons, if_neg h]
      exact ih
    · rw [erase, List.filter_cons_of_pos (by simpa using h'), get?_cons, get?_cons]
      rw [show get? (List.filter _ t) k' = _ from ih]

end Table

end BindingEngine
