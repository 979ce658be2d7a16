import BindingEngine.Path.Update
import BindingEngine.Proofs.Table

namespace BindingEngine.Value

variable {t new u v : Value} {s : Segment} {p rest : Path} {c : Conflict}

theorem set_eq_ok_iff : t.set p new = .ok u ↔ t.check p = .ok () ∧ overwrite new t p = u := by
  unfold set update
  cases t.check p <;> simp [Except.map]

theorem set_eq_error_iff : t.set p new = .error c ↔ t.check p = .error c := by
  unfold set update
  cases t.check p <;> simp [Except.map]

theorem update_of_set_eq_ok (h : t.set p new = .ok u) : t.update p new = (.ok (), u) := by
  obtain ⟨hc, rfl⟩ := set_eq_ok_iff.mp h
  rw [update, hc]

theorem update_of_set_eq_error (h : t.set p new = .error c) : t.update p new = (.error c, t) := by
  rw [update, set_eq_error_iff.mp h]

theorem check_cons_eq_ok_iff :
    t.check (s :: rest) = .ok () ↔ t.admits s ∧ (t.next s).check rest = .ok () := by
  rw [check]
  split
  case isTrue h  => simp [h]
  case isFalse h => simp [h]

theorem getElem?_setItem (items : List Value) (i : Nat) (v : Value) :
    (setItem items i v)[i]? = some v := by
  have hl : i < (items ++ List.replicate (i + 1 - items.length) null).length := by
    simp only [List.length_append, List.length_replicate]
    omega
  exact List.getElem?_set_self hl

theorem step?_put (t : Value) (s : Segment) (v : Value) : (t.put s v).step? s = some v := by
  cases s
  case key k   => cases t <;> simp [put, step?, field?, entries?, Table.get?_cons]
  case index i => cases t <;> simp [put, step?, item?, items?, getElem?_setItem]

theorem get?_overwrite (new t : Value) (p : Path) : (overwrite new t p).get? p = some new := by
  induction p generalizing t
  case nil => rfl
  case cons s rest hi => rw [overwrite, get?, step?_put, Option.bind_some, hi]

theorem get?_set (h : t.set p new = .ok u) : u.get? p = some new := by
  have hu := (set_eq_ok_iff.mp h).2
  exact hu ▸ get?_overwrite new t p

end BindingEngine.Value
