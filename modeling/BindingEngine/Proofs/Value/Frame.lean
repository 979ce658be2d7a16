import Mathlib.Logic.Basic
import BindingEngine.Proofs.Value.Update

namespace BindingEngine

def Kind.Fits : Kind → Segment → Prop
  | .map, .key _     => True
  | .array, .index _ => True
  | _, _             => False

namespace Value

def itemCount : Value → Nat
  | array items => items.length
  | _           => 0

-- The kind of what is at the end of a path, where nothing counts as null.
def kindAt (t : Value) (c : Path) : Kind :=
  ((t.get? c).map kind).getD .null

def lengthAt (t : Value) (c : Path) : Nat :=
  ((t.get? c).map itemCount).getD 0

-- The segment `s` does not apply to what is at the end of `c`:
-- 1. it is a value other than null, and of a kind that does not fit, or
-- 2. the position is more than 1024 items beyond the end of the array.
def Blocks (t : Value) (c : Path) (s : Segment) : Prop :=
  (∃ v, t.get? c = some v ∧ v ≠ null ∧ ¬v.kind.Fits s) ∨
    ∃ i, s = .index i ∧ t.lengthAt c + 1024 < i.toNat

def Blocked (t : Value) (p : Path) : Prop :=
  ∃ c s rest, p = c ++ s :: rest ∧ t.Blocks c s

-- The path `q` ends at a position beyond the end of an array, and `p` goes through a later one.
def Inserted (t : Value) (p q : Path) : Prop :=
  ∃ c i j rest, p = c ++ .index i :: rest ∧ q = c ++ [.index j] ∧
    t.lengthAt c ≤ j.toNat ∧ j.toNat < i.toNat

-- What an update may change. Nothing is said of the values at or below the end of the path, which are
-- replaced:
-- 1. the new value is found at the end of the path
-- 2. a path that parts from it leads to what it led to before, but that
-- 3. nulls come in before a position of the path, 1024 at most
-- 4. a map keeps its keys in order, and one new key may follow them
-- 5. every value that is not null stays and is of the same kind
structure Updated (t : Value) (p : Path) (new u : Value) : Prop where
  read : u.get? p = some new
  beside {q : Path} : ¬p <+: q → ¬q <+: p → ¬t.Inserted p q → u.get? q = t.get? q
  inserted {q : Path} : t.Inserted p q → t.get? q = none ∧ u.get? q = some null
  growth {c : Path} {i : UInt64} {rest : Path} :
    p = c ++ .index i :: rest → i.toNat - t.lengthAt c ≤ 1024
  keys {q : Path} {entries : Table String Value} : ¬p <+: q → t.get? q = some (map entries) →
    ∃ entries', u.get? q = some (map entries') ∧ (Table.keys entries' = Table.keys entries ∨
      ∃ k, k ∉ Table.keys entries ∧ Table.keys entries' = Table.keys entries ++ [k])
  kept {q : Path} {v : Value} : ¬p <+: q → t.get? q = some v → v ≠ null →
    ∃ v', u.get? q = some v' ∧ v'.kind = v.kind

variable {t new u v w : Value} {s s' : Segment} {p q c rest : Path} {x : Conflict} {k : String}
variable {entries : Table String Value}

section Steps

theorem get?_cons_next (h : q ≠ []) : t.get? (s :: q) = (t.next s).get? q := by
  rw [get?, next]
  cases t.step? s
  case some => rfl
  case none =>
    obtain ⟨s', q, rfl⟩ := List.exists_cons_of_ne_nil h
    cases s' <;> rfl

theorem get?_next_of_some (h : t.get? (s :: q) = some v) : (t.next s).get? q = some v := by
  rw [get?] at h
  rw [next]
  cases hs : t.step? s
  case none   => simp [hs] at h
  case some w => simpa [hs] using h

theorem get?_of_next (h : (t.next s).get? q = some v) (hv : v ≠ null) : t.get? (s :: q) = some v := by
  cases q
  case cons s' q => exact (get?_cons_next (List.cons_ne_nil _ _)).trans h
  case nil =>
    rw [get?_nil, Option.some.injEq, next] at h
    rw [get?]
    cases hs : t.step? s
    case none   => exact absurd (by simpa [hs] using h.symm) hv
    case some w => simpa [hs] using h

theorem kindAt_cons (t : Value) (s : Segment) (c : Path) :
    t.kindAt (s :: c) = (t.next s).kindAt c := by
  cases c
  case cons s' c => rw [kindAt, get?_cons_next (List.cons_ne_nil _ _), kindAt]
  case nil =>
    simp only [kindAt, get?, next]
    cases t.step? s <;> rfl

theorem lengthAt_cons (t : Value) (s : Segment) (c : Path) :
    t.lengthAt (s :: c) = (t.next s).lengthAt c := by
  cases c
  case cons s' c => rw [lengthAt, get?_cons_next (List.cons_ne_nil _ _), lengthAt]
  case nil =>
    simp only [lengthAt, get?, next]
    cases t.step? s <;> rfl

theorem blocks_cons : t.Blocks (s :: c) s' ↔ (t.next s).Blocks c s' := by
  simp only [Blocks, lengthAt_cons]
  refine or_congr_left (exists_congr fun v => ?_)
  constructor
  case mp  => exact fun h => ⟨get?_next_of_some h.1, h.2⟩
  case mpr => exact fun h => ⟨get?_of_next h.1 h.2.1, h.2⟩

theorem admits_iff : t.admits s ↔
    (t ≠ null → t.kind.Fits s) ∧ ∀ i, s = .index i → i.toNat ≤ t.itemCount + 1024 := by
  cases s
  case key k   => cases t <;> simp [admits, Kind.Fits, kind]
  case index i =>
    cases t <;> simp [admits, Kind.Fits, kind, itemCount]
    case null        => rfl
    case array items => exact Nat.add_comm items.length 1024 ▸ Iff.rfl

theorem blocks_nil : t.Blocks [] s ↔ ¬t.admits s := by
  have hl : t.lengthAt [] = t.itemCount := rfl
  simp only [Blocks, hl, admits_iff, get?_nil, Option.some.injEq, exists_eq_left', not_and_or,
    not_forall, Nat.not_le, exists_prop]

theorem Inserted.cons (h : (t.next s).Inserted p q) : t.Inserted (s :: p) (s :: q) := by
  obtain ⟨c, i, j, rest, rfl, rfl, hl, hj⟩ := h
  exact ⟨s :: c, i, j, rest, rfl, rfl, lengthAt_cons t s c ▸ hl, hj⟩

end Steps

section Check

theorem check_eq_ok_iff :
    t.check p = .ok () ↔ ∀ c s rest, p = c ++ s :: rest → ¬t.Blocks c s := by
  induction p generalizing t
  case nil => simp [check]
  case cons s p hi =>
    rw [check_cons_eq_ok_iff, hi]
    constructor
    case mp =>
      rintro ⟨ha, hc⟩ c s' rest he
      cases c
      case nil =>
        cases he
        exact fun hb => blocks_nil.mp hb ha
      case cons _ c =>
        cases he
        exact fun hb => hc c s' rest rfl (blocks_cons.mp hb)
    case mpr =>
      intro h
      refine ⟨Decidable.byContradiction fun ha => ?_, fun c s' rest he hb => ?_⟩
      case refine_1 => exact h [] s p rfl (blocks_nil.mpr ha)
      case refine_2 => exact h (s :: c) s' rest (congrArg (s :: ·) he) (blocks_cons.mpr hb)

theorem of_check_eq_error (h : t.check p = .error x) :
    ∃ c rest, p = c ++ x.segment :: rest ∧ t.Blocks c x.segment ∧ x.found = t.kindAt c := by
  induction p generalizing t
  case nil => simp [check] at h
  case cons s p hi =>
    rw [check] at h
    split at h
    case isTrue ha =>
      obtain ⟨c, rest, he, hb, hk⟩ := hi h
      exact ⟨s :: c, rest, congrArg (s :: ·) he, blocks_cons.mpr hb, hk.trans (kindAt_cons t s c).symm⟩
    case isFalse ha =>
      cases h
      exact ⟨[], p, rfl, blocks_nil.mpr ha, rfl⟩

theorem admits_of_check (h : t.check (c ++ s :: rest) = .ok ()) (hc : t.get? c = some v) :
    v.admits s := by
  refine Decidable.byContradiction fun ha => check_eq_ok_iff.mp h c s rest rfl ?_
  have hb : v.Blocks [] s := blocks_nil.mpr ha
  have hl : t.lengthAt c = v.lengthAt [] := by simp [lengthAt, hc]
  rcases hb with ⟨w, hw, hb⟩ | hb
  case inl => exact .inl ⟨v, hc, Option.some.inj hw ▸ hb⟩
  case inr => exact .inr (hl ▸ hb)

end Check

section Put

theorem getElem?_setItem_of_ne {items : List Value} {i j : Nat} (h : j ≠ i) :
    (setItem items i v)[j]? = if items.length ≤ j ∧ j < i then some null else items[j]? := by
  rw [setItem, List.getElem?_set_ne h.symm, List.getElem?_append]
  split
  case isTrue hj =>
    rw [if_neg (by omega)]
  case isFalse hj =>
    rw [List.getElem?_replicate, List.getElem?_eq_none (by omega)]
    exact if_congr (by omega) rfl rfl

theorem entries_of_admits (h : t.admits (.key k)) : ∃ entries,
    (∀ s, t.step? s = (map entries).step? s) ∧
    ∀ v, t.put (.key k) v = map (Table.insert entries k v) := by
  cases t <;> simp [admits] at h
  case map entries => exact ⟨entries, fun _ => rfl, fun _ => rfl⟩
  case null        => exact ⟨[], fun s => by cases s <;> rfl, fun _ => rfl⟩

theorem items_of_admits {i : UInt64} (h : t.admits (.index i)) : ∃ items,
    (∀ s, t.step? s = (array items).step? s) ∧ t.itemCount = items.length ∧
    ∀ v, t.put (.index i) v = array (setItem items i.toNat v) := by
  cases t <;> simp [admits] at h
  case array items => exact ⟨items, fun _ => rfl, rfl, fun _ => rfl⟩
  case null        => exact ⟨[], fun s => by cases s <;> rfl, rfl, fun _ => rfl⟩

theorem step?_put_of_ne (ha : t.admits s) (hs : s' ≠ s) : (t.put s v).step? s' = t.step? s' ∨
    ∃ i j, s = .index i ∧ s' = .index j ∧ t.itemCount ≤ j.toNat ∧ j.toNat < i.toNat := by
  cases s
  case key k =>
    obtain ⟨entries, ht, hp⟩ := entries_of_admits ha
    rw [ht, hp]
    cases s'
    case index j => exact .inl rfl
    case key k'  => exact .inl (Table.get?_insert_of_ne entries v fun h => hs (congrArg _ h))
  case index i =>
    obtain ⟨items, ht, hl, hp⟩ := items_of_admits ha
    rw [ht, hp, hl]
    cases s'
    case key k' => exact .inl rfl
    case index j =>
      have hne : j.toNat ≠ i.toNat := fun h => hs (congrArg _ (UInt64.toNat_inj.mp h))
      by_cases hj : items.length ≤ j.toNat ∧ j.toNat < i.toNat
      case pos => exact .inr ⟨i, j, rfl, rfl, hj⟩
      case neg => exact .inl ((getElem?_setItem_of_ne hne).trans (if_neg hj))

theorem step?_put_inserted {i j : UInt64} (ha : t.admits (.index i)) (hl : t.itemCount ≤ j.toNat)
    (hj : j.toNat < i.toNat) :
    t.step? (.index j) = none ∧ (t.put (.index i) v).step? (.index j) = some null := by
  obtain ⟨items, ht, hc, hp⟩ := items_of_admits ha
  rw [ht, hp]
  rw [hc] at hl
  exact ⟨List.getElem?_eq_none hl,
    (getElem?_setItem_of_ne (Nat.ne_of_lt hj)).trans (if_pos ⟨hl, hj⟩)⟩

theorem kind_put (ha : t.admits s) (ht : t ≠ null) : (t.put s v).kind = t.kind := by
  cases s <;> cases t <;> simp [admits] at ha ht ⊢ <;> rfl

end Put

section Overwrite

theorem get?_overwrite_above (h : t.get? c = some v) : (overwrite new t (c ++ s :: rest)).get? c =
    some (v.put s (overwrite new (v.next s) rest)) := by
  induction c generalizing t
  case nil => exact congrArg some (Option.some.inj h ▸ rfl)
  case cons s' c hi =>
    rw [List.cons_append, overwrite, get?, step?_put, Option.bind_some]
    exact hi (get?_next_of_some h)

theorem get?_overwrite_beside (h : t.check p = .ok ()) (hp : ¬p <+: q) (hq : ¬q <+: p)
    (hn : ¬t.Inserted p q) : (overwrite new t p).get? q = t.get? q := by
  induction p generalizing t q
  case nil => exact absurd (List.nil_prefix) hp
  case cons s p hi =>
    obtain ⟨ha, hc⟩ := check_cons_eq_ok_iff.mp h
    cases q
    case nil => exact absurd (List.nil_prefix) hq
    case cons s' q =>
      by_cases hs : s' = s
      case pos =>
        subst hs
        rw [List.cons_prefix_cons, eq_self_iff_true, true_and] at hp hq
        have hne : q ≠ [] := fun he => hq (he ▸ List.nil_prefix)
        rw [overwrite, get?, step?_put, Option.bind_some, get?_cons_next hne]
        exact hi hc hp hq (mt Inserted.cons hn)
      case neg =>
        rw [overwrite, get?, get?]
        rcases step?_put_of_ne (v := overwrite new (t.next s) p) ha hs with he | ⟨i, j, rfl, rfl, hl, hj⟩
        case inl => rw [he]
        case inr =>
          obtain ⟨hn', hu⟩ := step?_put_inserted (v := overwrite new (t.next (.index i)) p) ha hl hj
          -- an item that comes in is null, and a longer path leads nowhere from it
          cases q
          case nil => exact absurd ⟨[], i, j, p, rfl, rfl, hl, hj⟩ hn
          case cons s q =>
            rw [hn', hu]
            cases s <;> rfl

theorem get?_overwrite_inserted (h : t.check p = .ok ()) (hn : t.Inserted p q) :
    t.get? q = none ∧ (overwrite new t p).get? q = some null := by
  obtain ⟨c, i, j, rest, rfl, rfl, hl, hj⟩ := hn
  induction c generalizing t
  case nil =>
    obtain ⟨ha, _⟩ := check_cons_eq_ok_iff.mp h
    obtain ⟨hn, hu⟩ := step?_put_inserted (v := overwrite new (t.next (.index i)) rest) ha hl hj
    simp [overwrite, get?, hn, hu]
  case cons s c hi =>
    obtain ⟨_, hc⟩ := check_cons_eq_ok_iff.mp h
    rw [lengthAt_cons] at hl
    obtain ⟨hn, hu⟩ := hi hc hl
    refine ⟨(get?_cons_next (by simp)).trans hn, ?_⟩
    rw [List.cons_append, List.cons_append, overwrite, get?, step?_put, Option.bind_some, hu]

theorem get?_overwrite_of_some (h : t.check p = .ok ()) (hp : ¬p <+: q) (hq : ¬q <+: p)
    (hv : t.get? q = some v) : (overwrite new t p).get? q = some v := by
  have hn : ¬t.Inserted p q := fun hn => by
    obtain ⟨hq, _⟩ : t.get? q = none ∧ (overwrite new t p).get? q = some null :=
      get?_overwrite_inserted h hn
    exact absurd (hv.symm.trans hq) (Option.some_ne_none v)
  exact (get?_overwrite_beside h hp hq hn).trans hv

theorem get?_overwrite_cases (h : t.check p = .ok ()) (hp : ¬p <+: q) (hv : t.get? q = some v) :
    (∃ s w, v.admits s ∧ (overwrite new t p).get? q = some (v.put s w)) ∨
      (overwrite new t p).get? q = some v := by
  by_cases hq : q <+: p
  case pos =>
    obtain ⟨rest, rfl⟩ := hq
    cases rest
    case nil => exact absurd ((List.append_nil q).symm ▸ List.prefix_rfl) hp
    case cons s rest => exact .inl ⟨s, _, admits_of_check h hv, get?_overwrite_above hv⟩
  case neg => exact .inr (get?_overwrite_of_some h hp hq hv)

end Overwrite

theorem keys_put (ha : (map entries).admits s) : ∃ entries', (map entries).put s v = map entries' ∧
    (Table.keys entries' = Table.keys entries ∨
      ∃ k, k ∉ Table.keys entries ∧ Table.keys entries' = Table.keys entries ++ [k]) := by
  cases s
  case index i => simp [admits] at ha
  case key k =>
    refine ⟨_, rfl, ?_⟩
    by_cases hk : k ∈ Table.keys entries
    case pos => exact .inl (Table.keys_insert_of_mem hk v)
    case neg => exact .inr ⟨k, hk, Table.keys_insert_of_not_mem hk v⟩

theorem updated_overwrite (h : t.check p = .ok ()) : t.Updated p new (overwrite new t p) where
  read := get?_overwrite new t p
  beside hp hq hn := get?_overwrite_beside h hp hq hn
  inserted hn := get?_overwrite_inserted h hn
  growth {c i rest} he := by
    have hb : ¬t.Blocks c (.index i) := check_eq_ok_iff.mp h c (.index i) rest he
    have hi : ¬t.lengthAt c + 1024 < i.toNat := fun hi => hb (.inr ⟨i, rfl, hi⟩)
    omega
  keys hp hv := by
    rcases get?_overwrite_cases h hp hv with ⟨s, w, ha, hu⟩ | hu
    case inl =>
      obtain ⟨entries', he, hk⟩ := keys_put ha
      exact ⟨entries', he ▸ hu, hk⟩
    case inr => exact ⟨_, hu, .inl rfl⟩
  kept hp hv hn := by
    rcases get?_overwrite_cases h hp hv with ⟨s, w, ha, hu⟩ | hu
    case inl => exact ⟨_, hu, kind_put ha hn⟩
    case inr => exact ⟨_, hu, rfl⟩

-- An update fails exactly where the path is blocked. It names the segment and the kind that it found
-- then, and leaves the value as it was. One that succeeds changes nothing else than it has to.
theorem set_lawful (t : Value) (p : Path) (new : Value) :
    ((∃ x, t.set p new = .error x) ↔ t.Blocked p) ∧
    (∀ x, t.set p new = .error x → t.update p new = (.error x, t) ∧
      ∃ c rest, p = c ++ x.segment :: rest ∧ t.Blocks c x.segment ∧ x.found = t.kindAt c) ∧
    ∀ u, t.set p new = .ok u → t.update p new = (.ok (), u) ∧ t.Updated p new u := by
  refine ⟨⟨?_, ?_⟩, fun x hx => ?_, fun u hu => ?_⟩
  case refine_1 =>
    rintro ⟨x, hx⟩
    obtain ⟨c, rest, he, hb, _⟩ := of_check_eq_error (set_eq_error_iff.mp hx)
    exact ⟨c, x.segment, rest, he, hb⟩
  case refine_2 =>
    rintro ⟨c, s, rest, he, hb⟩
    cases hs : t.set p new
    case error x => exact ⟨x, rfl⟩
    case ok u    => exact absurd hb (check_eq_ok_iff.mp (set_eq_ok_iff.mp hs).1 c s rest he)
  case refine_3 => exact ⟨update_of_set_eq_error hx, of_check_eq_error (set_eq_error_iff.mp hx)⟩
  case refine_4 =>
    have hv := update_of_set_eq_ok hu
    obtain ⟨hc, rfl⟩ := set_eq_ok_iff.mp hu
    exact ⟨hv, updated_overwrite hc⟩

def listing : Value :=
  map [("list", array [int 1]), ("name", string "a")]

theorem listing_updated : ∃ u, listing.set [.key "list", .index 3] (int 9) = .ok u ∧
    u.get? [.key "list", .index 3] = some (int 9) ∧
    u.get? [.key "list", .index 2] = some null ∧
    u.get? [.key "name"] = some (string "a") ∧
    ∃ x, listing.update [.key "name", .key "first"] (int 9) = (.error x, listing) ∧
      x.found = .string := by
  obtain ⟨_, _, hu⟩ := set_lawful listing [.key "list", .index 3] (int 9)
  obtain ⟨hb, hx, _⟩ := set_lawful listing [.key "name", .key "first"] (int 9)
  obtain ⟨_, hu⟩ := hu _ rfl
  have hi : listing.Inserted [.key "list", .index 3] [.key "list", .index 2] :=
    ⟨[.key "list"], 3, 2, [], rfl, rfl, by decide, by decide⟩
  have hv : listing.get? [.key "name"] = some (string "a") := rfl
  have hn : ¬listing.Inserted [.key "list", .index 3] [.key "name"] := fun hn =>
    absurd (hv.symm.trans (hu.inserted hn).1) (Option.some_ne_none _)
  have hp : listing.Blocked [.key "name", .key "first"] :=
    ⟨[.key "name"], .key "first", [], rfl, .inl ⟨string "a", rfl, by simp, id⟩⟩
  obtain ⟨x, hs⟩ := hb.mpr hp
  refine ⟨_, rfl, hu.read, (hu.inserted hi).2, ?_, x, (hx x hs).1, ?_⟩
  case refine_1 => exact hu.beside (by decide) (by decide) hn
  case refine_2 =>
    have h : listing.set [.key "name", .key "first"] (int 9) = .error ⟨.key "first", .string⟩ := rfl
    cases h.symm.trans hs
    rfl

end Value

end BindingEngine
