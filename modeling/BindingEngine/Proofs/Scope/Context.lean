import BindingEngine.Proofs.Tree.Operation

namespace BindingEngine

def Node.value? (d : Node) (id : String) : Option Value :=
  if id = handoffId then d.handoff
  else match d.context with
    | some x => if x.id = id then some x.value else none
    | none => none

namespace Node

variable {d : Node} {x : Context} {id : String} {v : Value}

theorem value?_handoff :
    ({ d with handoff := some v } : Node).value? id =
      if id = handoffId then some v else d.value? id := by
  by_cases h : id = handoffId <;> simp [value?, h]

theorem value?_context (hx : x.id ≠ handoffId) (hd : ∀ y, d.context = some y → y.id = x.id) :
    ({ d with context := some x } : Node).value? id =
      if id = x.id then some x.value else d.value? id := by
  by_cases h : id = x.id
  case pos => simp [value?, h, hx]
  case neg =>
    cases hc : d.context
    case none => simp [value?, hc, h, Ne.symm h]
    case some y => simp [value?, hc, h, Ne.symm h, hd y hc]

end Node

namespace Tree

variable {t t' : Tree} {n m : NodeId} {d : Node} {x : Context} {id id' : String} {v : Value}

theorem context?_eq : t.context? n id = (t.node? n).bind (·.value? id) := by
  unfold context? Node.value?
  cases t.node? n <;> rfl

theorem contains_of_context? (h : (t.context? n id).isSome) : t.contains n := by
  cases hn : t.node? n
  case none => simp [context?, hn] at h
  case some d => exact contains_iff.mpr ⟨d, hn⟩

theorem context?_modify {f : Node → Node} : (t.modify n f).context? m id =
    if m = n then (t.node? n).bind fun d => (f d).value? id else t.context? m id := by
  simp only [context?_eq, node?_modify]
  split
  case isTrue => cases t.node? n <;> rfl
  case isFalse => rfl

theorem context?_setHandoff (h : t.contains n) :
    (t.setHandoff n v).context? m id =
      if m = n ∧ id = handoffId then some v else t.context? m id := by
  obtain ⟨d, hd⟩ := contains_iff.mp h
  rw [setHandoff, context?_modify]
  by_cases hm : m = n
  case neg => simp [hm]
  case pos =>
    subst hm
    simp [context?_eq, hd, Node.value?_handoff]

theorem context?_setContext (h : (t.context? n id).isSome) :
    (t.setContext n id v).context? m id' =
      if m = n ∧ id' = id then some v else t.context? m id' := by
  obtain ⟨d, hd⟩ := contains_iff.mp (contains_of_context? h)
  have hn : ¬(t.context? n id).isNone := by simpa [Option.isSome_iff_ne_none] using h
  rw [setContext, if_neg hn]
  split
  case isTrue hid =>
    subst hid
    exact context?_setHandoff (contains_of_context? h)
  case isFalse hid =>
    rw [context?_modify]
    by_cases hm : m = n
    case neg => simp [hm]
    case pos =>
      subst hm
      have hx : ∀ y, d.context = some y → y.id = id := by
        intro y hy
        simpa [context?_eq, hd, Node.value?, hid, hy] using h
      simp [context?_eq, hd, Node.value?_context (x := ⟨id, v⟩) hid hx]

theorem isSome_context?_setContext (h : (t.context? n id).isSome) :
    ((t.setContext n id v).context? m id').isSome = (t.context? m id').isSome := by
  rw [context?_setContext h]
  split
  case isTrue hm => simp [hm, h]
  case isFalse => rfl

theorem context?_declare (h : t.declare n x = .ok t') :
    t'.context? m id = if m = n ∧ id = x.id then some x.value else t.context? m id := by
  obtain ⟨hr, d, hd, hx, rfl⟩ := declare_eq_ok_iff.mp h
  have hr : x.id ≠ handoffId := fun h => by simp [isReserved, h] at hr
  rw [context?_modify]
  by_cases hm : m = n
  case neg => simp [hm]
  case pos =>
    subst hm
    have hx : ∀ y, d.context = some y → y.id = x.id := fun y hy => by simp [hx] at hy
    simp [context?_eq, hd, Node.value?_context hr hx]

theorem ancestors_setContext : (t.setContext n id v).ancestors m = t.ancestors m := by
  unfold setContext
  split
  case isTrue => rfl
  case isFalse => split <;> exact ancestors_modify fun _ => rfl

theorem ancestors_declare (h : t.declare n x = .ok t') : t'.ancestors m = t.ancestors m := by
  obtain ⟨_, _, _, _, rfl⟩ := declare_eq_ok_iff.mp h
  exact ancestors_modify fun _ => rfl

end Tree

end BindingEngine
