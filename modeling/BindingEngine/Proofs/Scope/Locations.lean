import BindingEngine.Scope.Locations
import BindingEngine.Proofs.Table
import BindingEngine.Proofs.Scope.Resolution

namespace BindingEngine.Locations

variable {l : Locations} {t : Tree} {n a : NodeId} {way : List NodeId}

def Known (l : Locations) (t : Tree) : Prop :=
  ∀ ⦃n found⦄, Table.get? l.known n = some found → found = t.locate? l.id n

theorem known_nil (id : String) (t : Tree) : Known { id } t :=
  fun _ _ h => by simp at h

-- A search along a way that is the end of the way from a node ends where the search from the node
-- that the way begins with ends, and so do the searches from all nodes that it passes.
theorem search_spec (f : t.Forest) (h : l.Known t) (hid : l.id ≠ globalId)
    (hw : way <:+ t.ancestors n) :
    (l.search t way).2 = (way.find? fun a => (t.context? a l.id).isSome).map .node ∧
    ∀ a ∈ (l.search t way).1, t.locate? l.id a = (l.search t way).2 := by
  induction way
  case nil => simp [search]
  case cons b way hi =>
    have hb : t.locate? l.id b = ((b :: way).find? fun a => (t.context? a l.id).isSome).map .node := by
      rw [Tree.locate?_of_ne hid, f.ancestors_of_suffix hw rfl]
    rw [← hb]
    unfold search
    split
    -- what is remembered of the next node is what is found from it
    case h_1 found hf => simp [h hf]
    case h_2 =>
      split
      case isTrue hc =>
        have hb : t.locate? l.id b = some (.node b) := by simp [hb, hc]
        simp [hb]
      case isFalse hc =>
        obtain ⟨h₁, h₂⟩ := hi ((List.suffix_cons b way).trans hw)
        have hb : t.locate? l.id b = (l.search t way).2 := by simp [hb, h₁, hc]
        simp only [List.forall_mem_cons]
        exact ⟨hb.symm, hb, h₂⟩

theorem get?_foldl_insert {known : Table NodeId (Option Location)} {passed : List NodeId}
    {found : Option Location} :
    Table.get? (passed.foldl (fun known n => Table.insert known n found) known) n =
      if n ∈ passed then some found else Table.get? known n := by
  induction passed generalizing known
  case nil => simp
  case cons b passed hi =>
    rw [List.foldl_cons, hi, Table.get?_insert]
    by_cases hn : n = b <;> simp [hn]

theorem locate?_spec (f : t.Forest) (h : l.Known t) (n : NodeId) :
    (l.locate? t n).1 = t.locate? l.id n ∧ (l.locate? t n).2.id = l.id ∧
      (l.locate? t n).2.Known t := by
  unfold locate?
  split
  case isTrue hid => exact ⟨by rw [hid, Tree.locate?_global], rfl, h⟩
  case isFalse hid =>
    obtain ⟨h₁, h₂⟩ := search_spec f h hid (List.suffix_rfl (l := t.ancestors n))
    refine ⟨h₁.trans (Tree.locate?_of_ne hid).symm, rfl, fun b found hb => ?_⟩
    rw [get?_foldl_insert] at hb
    split at hb
    case isTrue hp => exact (Option.some.inj hb).symm.trans (h₂ b hp).symm
    case isFalse => exact h hb

end BindingEngine.Locations
