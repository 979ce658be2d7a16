import BindingEngine.Proofs.Value.Update

open scoped List

namespace BindingEngine.Value

-- The same leaves at the same places.
inductive Same : Value → Value → Prop
  | refl (v : Value) : Same v v
  | array {as bs : List Value} : as.length = bs.length →
    (∀ (i : Nat) (a b : Value), as[i]? = some a → bs[i]? = some b → Same a b) →
    Same (array as) (array bs)
  | map {as bs : Table String Value} : Table.keys as ~ Table.keys bs →
    (∀ (k : String) (a b : Value), Table.get? as k = some a → Table.get? bs k = some b → Same a b) →
    Same (map as) (map bs)

-- Every map has each of its keys once, and every double is a number.
inductive Regular : Value → Prop
  | null : Regular null
  | bool (b : Bool) : Regular (bool b)
  | int (i : Int64) : Regular (int i)
  | double {x : Binary64} : x.isNaN = false → Regular (double x)
  | string (s : String) : Regular (string s)
  | array {items : List Value} : (∀ v ∈ items, Regular v) → Regular (array items)
  | map {entries : Table String Value} : Table.Unique entries →
    (∀ k v, (k, v) ∈ entries → Regular v) → Regular (map entries)

variable {t u v : Value} {s : Segment} {p : Path} {as bs items : List Value}
variable {entries : Table String Value} {k : String}

theorem Same.of_eq (h : u = v) : Same u v := h ▸ .refl u

section Equality

theorem itemsEqual_iff : itemsEqual as bs ↔ as.length = bs.length ∧
    ∀ (i : Nat) (a b : Value), as[i]? = some a → bs[i]? = some b → a.equals b := by
  induction as generalizing bs
  case nil => cases bs <;> simp [itemsEqual]
  case cons a as hi =>
    cases bs
    case nil => simp [itemsEqual]
    case cons b bs =>
      rw [itemsEqual, Bool.and_eq_true, hi, List.length_cons, List.length_cons, Nat.succ_inj]
      constructor
      case mp =>
        rintro ⟨hab, hl, h⟩
        refine ⟨hl, fun i a' b' ha hb => ?_⟩
        cases i
        case zero => cases ha; cases hb; exact hab
        case succ i => exact h i a' b' ha hb
      case mpr =>
        rintro ⟨hl, h⟩
        exact ⟨h 0 a b rfl rfl, hl, fun i => h (i + 1)⟩

theorem entriesWithin_iff {as : List (String × Value)} {bs : Table String Value} :
    entriesWithin as bs ↔
      ∀ k a, (k, a) ∈ as → ∃ b, Table.get? bs k = some b ∧ a.equals b := by
  induction as
  case nil => simp [entriesWithin]
  case cons entry as hi =>
    obtain ⟨k, a⟩ := entry
    rw [entriesWithin, Bool.and_eq_true, hi]
    constructor
    case mp =>
      rintro ⟨hk, h⟩ k' a' hm
      rcases List.mem_cons.mp hm with he | hm
      case inl =>
        cases he
        split at hk
        case h_1 b hb => exact ⟨b, hb, hk⟩
        case h_2 => contradiction
      case inr => exact h k' a' hm
    case mpr =>
      intro h
      refine ⟨?_, fun k' a' hm => h k' a' (List.mem_cons_of_mem _ hm)⟩
      obtain ⟨b, hb, he⟩ := h k a List.mem_cons_self
      rwa [hb]

theorem equals_self (h : Regular v) : v.equals v := by
  induction h
  case double hx => exact Binary64.equals_refl hx
  case array items _ hi =>
    refine itemsEqual_iff.mpr ⟨rfl, fun i a b ha hb => ?_⟩
    rw [ha] at hb
    exact Option.some.inj hb ▸ hi a (List.mem_of_getElem? ha)
  case map entries hu _ hi =>
    have hw : entriesWithin entries entries :=
      entriesWithin_iff.mpr fun k a hm => ⟨a, Table.get?_of_mem hu hm, hi k a hm⟩
    simp [equals, hw]
  all_goals simp [equals]

theorem Same.equals (h : Same u v) (hr : Regular u) : u.equals v := by
  induction h
  case refl v => exact equals_self hr
  case array as bs hl _ hi =>
    cases hr
    case array hr =>
      exact itemsEqual_iff.mpr ⟨hl, fun i a b ha hb => hi i a b ha hb (hr a (List.mem_of_getElem? ha))⟩
  case map as bs hk _ hi =>
    cases hr
    case map hu hr =>
      have hl : as.length = bs.length := by simpa [Table.keys] using hk.length_eq
      have hw : entriesWithin as bs := by
        refine entriesWithin_iff.mpr fun k a hm => ?_
        have hkb : k ∈ Table.keys bs := hk.subset (List.mem_map_of_mem hm)
        obtain ⟨b, hb⟩ := Option.isSome_iff_exists.mp ((Table.mem_keys_iff bs k).mp hkb)
        exact ⟨b, hb, hi k a b (Table.get?_of_mem hu hm) hb (hr k a hm)⟩
      simp [Value.equals, hl, hw]

end Equality

section Regularity

theorem Regular.step? (h : Regular t) (hv : t.step? s = some v) : Regular v := by
  cases s
  case key k =>
    cases h
    case map entries _ hr => exact hr k v (Table.mem_of_get? hv)
    all_goals contradiction
  case index i =>
    cases h
    case array items hr => exact hr v (List.mem_of_getElem? hv)
    all_goals contradiction

theorem Regular.next (h : Regular t) (s : Segment) : Regular (t.next s) := by
  rw [Value.next]
  cases hv : t.step? s
  case none => exact .null
  case some v => exact h.step? hv

theorem regular_insert (h : Regular (map entries)) (hv : Regular v) (k : String) :
    Regular (map (Table.insert entries k v)) := by
  cases h
  case map hu hr =>
    have hu' : Table.Unique (Table.insert entries k v) := Table.unique_insert hu k v
    refine .map hu' fun k' w hm => ?_
    have hw := (Table.get?_insert entries k k' v).symm.trans (Table.get?_of_mem hu' hm)
    split at hw
    case isTrue => exact Option.some.inj hw ▸ hv
    case isFalse => exact hr k' w (Table.mem_of_get? hw)

theorem regular_setItem (h : Regular (array items)) (hv : Regular v) (i : Nat) :
    Regular (array (setItem items i v)) := by
  cases h
  case array hr =>
    refine .array fun w hm => ?_
    rcases List.mem_or_eq_of_mem_set hm with hm | rfl
    case inr => exact hv
    case inl =>
      rcases List.mem_append.mp hm with hm | hm
      case inl => exact hr w hm
      case inr => exact List.eq_of_mem_replicate hm ▸ .null

theorem Regular.put (h : Regular t) (s : Segment) (hv : Regular v) : Regular (t.put s v) := by
  have hm : Regular (.map []) := .map List.nodup_nil (by simp)
  have ha : Regular (.array []) := .array (by simp)
  cases s
  case key k =>
    cases t
    case map => exact regular_insert h hv k
    all_goals exact regular_insert hm hv k
  case index i =>
    cases t
    case array => exact regular_setItem h hv i.toNat
    all_goals exact regular_setItem ha hv i.toNat

theorem Regular.overwrite (h : Regular t) (hv : Regular v) (p : Path) :
    Regular (Value.overwrite v t p) := by
  induction p generalizing t
  case nil => exact hv
  case cons s p hi => exact h.put s (hi (h.next s))

end Regularity

end BindingEngine.Value
