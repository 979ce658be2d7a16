import BindingEngine.Engine.Basic
import BindingEngine.Proofs.Scope.Resolution
import BindingEngine.Proofs.Value.Update

namespace BindingEngine.Engine

variable {e e' : Engine} {id id' : String} {n n' a : NodeId} {l : Location} {p : Path}
variable {v old new : Value} {r : Except Error Unit}

-- No node on the way from `n` to its root holds the context, and it is not the global one.
def Invisible (e : Engine) (id : String) (n : NodeId) : Prop :=
  id ≠ globalId ∧ ∀ a ∈ e.tree.ancestors n, e.tree.context? a id = none

-- A mutation finds the context and another value at the end of the path, and can put `v` there.
def Changes (e : Engine) (id : String) (p : Path) (v : Value) (n : NodeId) : Prop :=
  ∃ old new, e.resolve id n = some old ∧ ¬(old.get? p).any (·.equals v) ∧ old.set p v = .ok new

theorem locate?_eq_none_iff : e.locate? id n = none ↔ e.Invisible id n :=
  Tree.locate?_eq_none_iff

theorem resolve_eq (e : Engine) (id : String) (n : NodeId) :
    e.resolve id n = (e.locate? id n).bind ((e.scope n).valueAt? id) :=
  rfl

theorem resolve_of_locate?_eq (h : e.locate? id n' = e.locate? id n) :
    e.resolve id n' = e.resolve id n := by
  rw [resolve_eq, resolve_eq, h]
  refine Option.bind_congr fun l _ => ?_
  cases l <;> rfl

theorem isSome_valueAt? (h : e.locate? id n = some l) : ((e.scope n).valueAt? id l).isSome := by
  cases l
  case global => rfl
  case node a => exact (Tree.of_locate?_eq_node h).2.2

inductive Mutation (e : Engine) (id : String) (p : Path) (v : Value) (n : NodeId) :
    Except Error Unit → Engine → Prop
  | invisible : e.Invisible id n → Mutation e id p v n (.error (.unresolved id)) e
  | unchanged {l : Location} {old : Value} : e.locate? id n = some l → e.resolve id n = some old →
    (old.get? p).any (·.equals v) → Mutation e id p v n (.ok ()) (e.report [.unchanged])
  | conflict {l : Location} {old : Value} {c : Conflict} : e.locate? id n = some l → e.resolve id n = some old →
    ¬(old.get? p).any (·.equals v) → old.set p v = .error c →
    Mutation e id p v n (.error (.ofConflict c)) e
  | changed {l : Location} {old new : Value} : e.locate? id n = some l → e.resolve id n = some old →
    ¬(old.get? p).any (·.equals v) → old.set p v = .ok new →
    Mutation e id p v n (.ok ()) (((e.setAt id new l).report (.contextChanged id l ::
      (old.documented.changes [] new.documented).map .changed)).notify id l).2

theorem mutation (e : Engine) (id : String) (p : Path) (v : Value) (n : NodeId) :
    Mutation e id p v n (e.setContext id p v n).1 (e.setContext id p v n).2 := by
  unfold setContext
  split
  case h_1 hl => exact .invisible (locate?_eq_none_iff.mp hl)
  case h_2 l hl =>
    split
    case h_1 hv => exact absurd (isSome_valueAt? hl) (by simp [hv])
    case h_2 old hv =>
      have hr : e.resolve id n = some old := by rw [resolve_eq, hl, Option.bind_some, hv]
      split
      case isTrue he => exact .unchanged hl hr he
      case isFalse he =>
        split
        case h_1 c hc => exact .conflict hl hr he hc
        case h_2 new hn => exact .changed hl hr he hn

section Placement

variable (h : e.locate? id n = some l)

include h

theorem locate?_setAt : (e.setAt id v l).locate? id' n' = e.locate? id' n' := by
  cases l
  case global => rfl
  case node a => exact Tree.locate?_setContext (Tree.of_locate?_eq_node h).2.2

theorem resolve_setAt : (e.setAt id v l).resolve id' n' =
    if id' = id ∧ e.locate? id n' = some l then some v else e.resolve id' n' := by
  cases l
  case node a => exact Tree.resolve_setContext (Tree.of_locate?_eq_node h).2.2
  case global =>
    have hg : id = globalId := Tree.locate?_eq_global_iff.mp h
    have hl : e.locate? id n' = some .global := Tree.locate?_eq_global_iff.mpr hg
    simp only [hl, and_true, resolve_eq]
    change (e.locate? id' n').bind _ = _
    split
    -- the global context is seen at the same place from everywhere
    case isTrue hid =>
      rw [hid, hl]
      rfl
    case isFalse hid =>
      cases hl : e.locate? id' n'
      case none => rfl
      case some location =>
        cases location
        case global => exact absurd ((Tree.locate?_eq_global_iff.mp hl).trans hg.symm) hid
        case node b => rfl

omit h in
theorem global_setAt (hl : l ≠ .global) : (e.setAt id v l).global = e.global := by
  cases l
  case global => contradiction
  case node => rfl

end Placement

-- After a mutation the context has the value that was written, wherever it is seen, and everything else
-- is as it was. A mutation that fails changes nothing.
theorem setContext_reads_back (e : Engine) (id : String) (p : Path) (v : Value) (n : NodeId) :
    ((e.setContext id p v n).1 = .error (.unresolved id) ↔ e.Invisible id n) ∧
    (∀ error, (e.setContext id p v n).1 = .error error → (e.setContext id p v n).2 = e ∧
      (error = .unresolved id ∨
        ∃ old c, e.resolve id n = some old ∧ old.set p v = .error c ∧ error = .ofConflict c)) ∧
    ((e.setContext id p v n).1 = .ok () → ∃ old new w,
      e.resolve id n = some old ∧
      (if (old.get? p).any (·.equals v) then new = old else old.set p v = .ok new) ∧
      new.get? p = some w ∧ (w = v ∨ w.equals v) ∧
      (∀ n', e.locate? id n' = e.locate? id n →
        (e.setContext id p v n).2.resolve id n' = some new) ∧
      (∀ id' n', ¬(id' = id ∧ e.locate? id n' = e.locate? id n) →
        (e.setContext id p v n).2.resolve id' n' = e.resolve id' n') ∧
      (id ≠ globalId → (e.setContext id p v n).2.global = e.global)) := by
  have hm := mutation e id p v n
  generalize (e.setContext id p v n).1 = r at hm
  generalize (e.setContext id p v n).2 = e' at hm
  cases hm
  case invisible hi =>
    exact ⟨⟨fun _ => hi, fun _ => rfl⟩, fun _ h => ⟨rfl, .inl (Except.error.inj h).symm⟩, by simp⟩
  case conflict l old c hl hr _ hc =>
    have hk : Error.ofConflict c ≠ .unresolved id := by simp [Error.ofConflict, Error.unresolved]
    refine ⟨⟨fun h => absurd (Except.error.inj h) hk, fun hi => ?_⟩,
      fun error h => ⟨rfl, .inr ⟨old, c, hr, hc, ?_⟩⟩, by simp⟩
    case refine_1 => simp [locate?_eq_none_iff.mpr hi] at hl
    case refine_2 => exact (Except.error.inj h).symm
  case unchanged l old hl hr he =>
    obtain ⟨w, hw, hwv⟩ := (Option.any_eq_true ..).mp he
    refine ⟨⟨by simp, fun hi => ?_⟩, by simp, fun _ => ⟨old, old, w, hr, ?_, hw, .inr hwv, ?_, ?_, ?_⟩⟩
    case refine_1 => simp [locate?_eq_none_iff.mpr hi] at hl
    case refine_2 => rw [if_pos he]
    case refine_3 => exact fun n' hn' => (resolve_of_locate?_eq hn').trans hr
    case refine_4 => exact fun _ _ _ => rfl
    case refine_5 => exact fun _ => rfl
  case changed l old new hl hr he hn =>
    refine ⟨⟨by simp, fun hi => ?_⟩, by simp,
      fun _ => ⟨old, new, v, hr, ?_, Value.get?_set hn, .inl rfl, ?_, ?_, ?_⟩⟩
    case refine_1 => simp [locate?_eq_none_iff.mpr hi] at hl
    case refine_2 => rwa [if_neg he]
    case refine_3 =>
      intro n' hn'
      exact (resolve_setAt hl).trans (if_pos ⟨rfl, hn'.trans hl⟩)
    case refine_4 =>
      intro id' n' hn'
      exact (resolve_setAt hl).trans (if_neg (hl ▸ hn'))
    case refine_5 =>
      intro hid
      exact global_setAt fun hg => hid (Tree.locate?_eq_global_iff.mp (hg ▸ hl))

end BindingEngine.Engine
