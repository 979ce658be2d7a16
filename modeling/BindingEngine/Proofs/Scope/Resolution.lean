import Mathlib.Data.List.Find
import BindingEngine.Proofs.Scope.Context

namespace BindingEngine.Tree

variable {t t' : Tree} {n m a b c p : NodeId} {d e : Node} {x : Context} {id id' : String}
variable {v g : Value} {location : Location}

theorem locate?_global : t.locate? globalId n = some .global :=
  if_pos rfl

theorem locate?_of_ne (h : id ≠ globalId) :
    t.locate? id n = ((t.ancestors n).find? fun a => (t.context? a id).isSome).map .node :=
  if_neg h

theorem locate?_eq_global_iff : t.locate? id n = some .global ↔ id = globalId := by
  by_cases h : id = globalId
  case pos => simp [h, locate?_global]
  case neg => simp [h, locate?_of_ne h]

theorem of_locate?_eq_node (h : t.locate? id n = some (.node a)) :
    id ≠ globalId ∧ a ∈ t.ancestors n ∧ (t.context? a id).isSome := by
  have hid : id ≠ globalId := fun hid => by simp [hid, locate?_global] at h
  have hf : (t.ancestors n).find? (fun a => (t.context? a id).isSome) = some a := by
    simpa [locate?_of_ne hid] using h
  exact ⟨hid, List.mem_of_find?_eq_some hf, List.find?_some (p := fun a => (t.context? a id).isSome) hf⟩

theorem locate?_eq_none_iff :
    t.locate? id n = none ↔ id ≠ globalId ∧ ∀ a ∈ t.ancestors n, t.context? a id = none := by
  by_cases h : id = globalId
  case pos => simp [h, locate?_global]
  case neg => simp [h, locate?_of_ne h]

section Frame

structure SameView (t t' : Tree) (n : NodeId) : Prop where
  ancestors : t'.ancestors n = t.ancestors n
  context? {a : NodeId} (id : String) : a ∈ t.ancestors n → t'.context? a id = t.context? a id

theorem SameView.locate? (h : SameView t t' n) : t'.locate? id n = t.locate? id n := by
  unfold Tree.locate?
  split
  case isTrue => rfl
  case isFalse =>
    rw [h.ancestors, List.find?_congr fun a ha => by rw [h.context? id ha]]

theorem SameView.resolve (h : SameView t t' n) :
    (Scope.mk t' g n []).resolve id = (Scope.mk t g n []).resolve id := by
  simp only [Scope.resolve, Scope.locate?, List.find?_nil, h.locate?]
  cases hl : t.locate? id n
  case none => rfl
  case some location =>
    cases location
    case global => rfl
    case node a => exact h.context? id (of_locate?_eq_node hl).2.1

theorem SameView.of_nodes (hn : ∀ m, m = n ∨ m ∈ t.ancestors n →
    (t'.node? m).map (fun d => (d.lineage, d.context, d.handoff)) =
      (t.node? m).map (fun d => (d.lineage, d.context, d.handoff))) : SameView t t' n where
  ancestors := by
    have h := hn n (.inl rfl)
    cases h₁ : t.node? n <;> cases h₂ : t'.node? n <;> simp_all [Tree.ancestors]
  context? {a} id ha := by
    have h := hn a (.inr ha)
    cases h₁ : t.node? a <;> cases h₂ : t'.node? a <;> simp_all [context?_eq, Node.value?]

namespace Forest

variable (f : t.Forest)

include f

theorem sameView_remove (h : p ∉ t.ancestors n) : SameView t (t.remove p).2 n := by
  refine .of_nodes fun m hm => ?_
  have hp : p ∉ t.ancestors m := by
    rcases hm with rfl | hm
    case inl => exact h
    case inr => exact fun hp => h (f.ancestors_trans hp hm)
  rw [f.node?_remove, if_neg hp]
  cases t.node? m <;> rfl

end Forest

end Frame

section Mutation

theorem locate?_setContext (h : (t.context? a id).isSome) :
    (t.setContext a id v).locate? id' n = t.locate? id' n := by
  simp only [Tree.locate?, ancestors_setContext, isSome_context?_setContext h]

theorem resolve_setContext (h : (t.context? a id).isSome) :
    (Scope.mk (t.setContext a id v) g n []).resolve id' =
      if id' = id ∧ t.locate? id n = some (.node a) then some v
      else (Scope.mk t g n []).resolve id' := by
  simp only [Scope.resolve, Scope.locate?, List.find?_nil, locate?_setContext h]
  cases hl : t.locate? id' n
  case none =>
    have hn : ¬(id' = id ∧ t.locate? id n = some (.node a)) := fun h => by simp [← h.1, hl] at h
    simp [hn]
  case some location =>
    cases location
    case global =>
      have hn : ¬(id' = id ∧ t.locate? id n = some (.node a)) := fun h => by simp [← h.1, hl] at h
      simp [hn, Scope.valueAt?]
    case node b =>
      -- there is one place where a node sees a context of a name
      have hb : b = a ∧ id' = id ↔ id' = id ∧ t.locate? id n = some (.node a) := by
        constructor
        case mp => exact fun h => ⟨h.2, by rw [← h.1, ← h.2, hl]⟩
        case mpr =>
          rintro ⟨h₁, h₂⟩
          rw [← h₁, hl] at h₂
          exact ⟨by simpa using h₂, h₁⟩
      simp only [Option.bind_some, Scope.valueAt?, context?_setContext h, hb]

end Mutation

section Declaration

theorem find?_eq_of_ne {l : List NodeId} {p q : NodeId → Bool} (h : ∀ b ∈ l, b ≠ a → q b = p b)
    (hq : q a) (hf : l.find? q ≠ some a) : l.find? q = l.find? p := by
  induction l
  case nil => rfl
  case cons b l hi =>
    by_cases hb : b = a
    case pos => exact absurd (by rw [hb, List.find?_cons_of_pos hq]) hf
    case neg =>
      have hqp := h b List.mem_cons_self hb
      cases hpb : p b
      case true => rw [List.find?_cons_of_pos (hqp.trans hpb), List.find?_cons_of_pos hpb]
      case false =>
        have hqb : ¬q b := by simp [hqp, hpb]
        rw [List.find?_cons_of_neg hqb] at hf ⊢
        rw [List.find?_cons_of_neg (by simp [hpb])]
        exact hi (fun b' hb' => h b' (List.mem_cons_of_mem b hb')) hf

theorem locate?_declare (h : t.declare a x = .ok t')
    (hn : ¬(id = x.id ∧ t'.locate? id n = some (.node a))) : t'.locate? id n = t.locate? id n := by
  by_cases hg : id = globalId
  case pos => rw [hg, locate?_global, locate?_global]
  case neg =>
    rw [locate?_of_ne hg] at hn ⊢
    rw [locate?_of_ne hg]
    rw [ancestors_declare h] at hn ⊢
    by_cases hid : id = x.id
    case neg => simp only [context?_declare h, hid, and_false, if_false]
    case pos =>
      -- the search differs from the one before at `a` alone, and does not end there
      refine congrArg _ (find?_eq_of_ne (a := a) (fun b _ hb => ?_) ?_ fun hf => hn ⟨hid, ?_⟩)
      · simp [context?_declare h, hb]
      · simp [context?_declare h, hid]
      · rw [hf, Option.map_some]

theorem resolve_declare (h : t.declare a x = .ok t')
    (hn : ¬(id = x.id ∧ t'.locate? id n = some (.node a))) :
    (Scope.mk t' g n []).resolve id = (Scope.mk t g n []).resolve id := by
  simp only [Scope.resolve, Scope.locate?, List.find?_nil]
  have he := locate?_declare h hn
  rw [he] at hn ⊢
  cases hl : t.locate? id n
  case none => rfl
  case some location =>
    cases location
    case global => rfl
    case node b =>
      have hb : ¬(b = a ∧ id = x.id) := fun h => hn ⟨h.2, by rw [hl, h.1]⟩
      simp [Scope.valueAt?, context?_declare h, hb]

end Declaration

end BindingEngine.Tree
