import Mathlib.Logic.Relation
import BindingEngine.Proofs.Engine.Delivery
import BindingEngine.Proofs.Tree.History

namespace BindingEngine.Engine

variable {e e' : Engine} {n m root : NodeId} {p : Path} {id : String} {v : Value} {form : Form}
variable {r : Except Error Unit}

section Effects

def handoff (e : Engine) (root : NodeId) : Value :=
  (e.tree.context? root handoffId).getD .null

inductive HandingOver (e : Engine) (root : NodeId) (p : Path) (v : Value) :
    Except Error Unit → Engine → Prop
  | missing : ¬e.tree.contains root → HandingOver e root p v (.error (.missingNode root)) e
  | conflict {c : Conflict} : e.tree.contains root → (e.handoff root).set p v = .error c →
    HandingOver e root p v (.error (.ofConflict c))
      { e with tree := e.tree.setHandoff root (e.handoff root) }
  | done {new : Value} : e.tree.contains root → (e.handoff root).set p v = .ok new →
    HandingOver e root p v (.ok ())
      (({ e with tree := (e.tree.setHandoff root (e.handoff root)).setHandoff root new }.report
        [.handedOver root]).notify handoffId (.node root)).2

theorem handingOver (e : Engine) (root : NodeId) (p : Path) (v : Value) :
    HandingOver e root p v (e.handOver root p v).1 (e.handOver root p v).2 := by
  unfold handOver
  split
  case h_1 hn => exact .missing (by simp [Tree.contains, hn])
  case h_2 d hn =>
    have hc : e.tree.contains root := Tree.contains_iff.mpr ⟨d, hn⟩
    have hd : d.handoff.getD .null = e.handoff root := by simp [handoff, Tree.context?, hn]
    rw [hd]
    split
    case h_1 c hs => exact .conflict hc hs
    case h_2 new hs => exact .done hc hs

theorem tree_destroy : (e.destroy n).2.tree = (e.tree.remove n).2 := by
  obtain ⟨_, _, he⟩ := destroy_eq e n
  rw [he]

theorem form?_foldl_forget (e : Engine) (ns : List NodeId) : Table.get? (ns.foldl forget e).forms m =
    if m ∈ ns then none else Table.get? e.forms m := by
  induction ns generalizing e
  case nil => simp
  case cons b ns hi =>
    have he : (e.forget b).forms = Table.erase e.forms b := rfl
    rw [List.foldl_cons, hi, he, Table.get?_erase]
    by_cases hm : m = b <;> simp [hm]

theorem form?_destroy (f : e.tree.Forest) : Table.get? (e.destroy n).2.forms m =
    if n ∈ e.tree.ancestors m then none else Table.get? e.forms m := by
  have he : (e.destroy n).2.forms = ((e.tree.subtree n).foldl forget e).forms := by
    simp only [destroy]
    split <;> rfl
  rw [he, form?_foldl_forget]
  simp only [f.mem_subtree_iff]

theorem subscribe_eq (e : Engine) (n : NodeId) (t : Template) (o : Observer) :
    ∃ subscriptions journal, (e.subscribe n t o).2 = { e with subscriptions, journal } := by
  by_cases hn : e.tree.contains n
  case neg => exact ⟨_, _, subscribe_eq_of_not_contains hn⟩
  case pos =>
    obtain ⟨_, he⟩ := subscribe_eq_of_contains hn (t := t) (o := o)
    exact ⟨_, _, he⟩

theorem bind_eq {α : Type} [Attribute α] (e : Engine) (n : NodeId) (x : Expression α) (name : String) :
    ∃ subscriptions journal, (e.bind n x name).2 = { e with subscriptions, journal } := by
  cases x
  case value => exact ⟨_, _, rfl⟩
  case binding t => exact subscribe_eq e n t _

theorem tree_setContext (e : Engine) (id : String) (p : Path) (v : Value) (n : NodeId) :
    (e.setContext id p v n).2.tree = e.tree ∨
    ∃ a new, e.locate? id n = some (.node a) ∧
      (e.setContext id p v n).2.tree = (Tree.Operation.setContext a id new).apply e.tree := by
  have hm := mutation e id p v n
  generalize (e.setContext id p v n).1 = r at hm
  generalize (e.setContext id p v n).2 = e' at hm ⊢
  cases hm
  case changed l old new hl _ _ _ =>
    cases l
    case global => exact .inl rfl
    case node a => exact .inr ⟨a, new, hl, rfl⟩
  all_goals exact .inl rfl

theorem forms_setContext : (e.setContext id p v n).2.forms = e.forms := by
  have hm := mutation e id p v n
  generalize (e.setContext id p v n).1 = r at hm
  generalize (e.setContext id p v n).2 = e' at hm ⊢
  cases hm
  case changed l _ _ _ _ _ _ => cases l <;> rfl
  all_goals rfl

theorem baseUrl_setContext : (e.setContext id p v n).2.baseUrl = e.baseUrl := by
  have hm := mutation e id p v n
  generalize (e.setContext id p v n).1 = r at hm
  generalize (e.setContext id p v n).2 = e' at hm ⊢
  cases hm
  case changed l _ _ _ _ _ _ => cases l <;> rfl
  all_goals rfl

end Effects

theorem tree_apply (e : Engine) (op : Operation) : (e.apply op).tree = e.tree ∨
    ∃ change : Tree.Operation, (e.apply op).tree = change.apply e.tree ∧
      (change = .createRoot → op = .createRoot) ∧ (∀ n, change = .remove n → op = .destroy n) ∧
      ∀ n v, change ≠ .setHandoff n v := by
  cases op
  case createRoot => exact .inr ⟨.createRoot, rfl, fun _ => rfl, by simp, by simp⟩
  case addChild p =>
    exact .inr ⟨.addChild p, by rw [apply, addChild_eq], by simp, by simp, by simp⟩
  case declareContext n x =>
    exact .inr ⟨.declare n x, by rw [apply, declareContext_eq], by simp, by simp, by simp⟩
  case declareForm n form =>
    obtain ⟨_, _, he⟩ := declareForm_eq e n form
    exact .inl (by rw [apply, he])
  case destroy n =>
    refine .inr ⟨.remove n, tree_destroy, by simp, fun _ h => ?_, by simp⟩
    rw [Tree.Operation.remove.inj h]
  case subscribe n t o =>
    obtain ⟨_, _, he⟩ := subscribe_eq e n t o
    exact .inl (by rw [apply, he])
  case bind n x name =>
    obtain ⟨_, _, he⟩ := bind_eq e n x name
    exact .inl (by rw [apply, he])
  case setContext id p v n =>
    rcases tree_setContext e id p v n with h | ⟨a, new, _, h⟩
    case inl => exact .inl h
    case inr => exact .inr ⟨.setContext a id new, h, by simp, by simp, by simp⟩
  all_goals exact .inl rfl

-- Whoever is subscribed, and every form, is there.
structure Sound (e : Engine) : Prop extends Consistent e where
  formed {n : NodeId} {form : Form} : Table.get? e.forms n = some form → e.tree.contains n

namespace Sound

theorem start (global : Value) (baseUrl : Option String) : Sound (start global baseUrl) where
  toConsistent := .start global baseUrl
  formed h := by simp [Engine.start] at h

variable (h : Sound e)

include h

theorem of_forms_eq (hc : Consistent e') (hf : e'.forms = e.forms)
    (ht : ∀ {n}, e.tree.contains n → e'.tree.contains n) : Sound e' where
  toConsistent := hc
  formed hn := ht (h.formed (hf ▸ hn))

theorem report (reports : List Report) : Sound (e.report reports) :=
  ⟨h.toConsistent.report reports, h.formed⟩

theorem destroy (n : NodeId) : Sound (e.destroy n).2 where
  toConsistent := h.toConsistent.destroy n
  formed hm := by
    rw [form?_destroy h.forest] at hm
    split at hm
    case isTrue => contradiction
    case isFalse hn =>
      rw [tree_destroy]
      exact Tree.Operation.contains_apply h.forest (h.formed hm) (.remove n)
        fun p hp => Tree.Operation.remove.inj hp ▸ hn

theorem declareForm (n : NodeId) (form : Form) : Sound (e.declareForm n form).2 where
  toConsistent := h.toConsistent.apply (.declareForm n form)
  formed hm := by
    unfold Engine.declareForm at hm ⊢
    split
    case isFalse hn =>
      rw [if_neg hn] at hm
      exact h.formed hm
    case isTrue hn =>
      rw [if_pos hn] at hm
      have hm := (Table.get?_insert ..).symm.trans hm
      split at hm
      case isTrue he => exact he ▸ hn
      case isFalse => exact h.formed hm

theorem handOver (root : NodeId) (p : Path) (v : Value) : Sound (e.handOver root p v).2 := by
  have hc := h.toConsistent.handOver root p v
  have hs := handingOver e root p v
  generalize (e.handOver root p v).1 = r at hs
  generalize (e.handOver root p v).2 = e' at hs hc ⊢
  cases hs
  case missing => exact h
  case conflict => exact h.of_forms_eq hc rfl fun hn => Tree.contains_modify.trans hn
  case done =>
    exact h.of_forms_eq hc rfl fun hn => Tree.contains_modify.trans (Tree.contains_modify.trans hn)

theorem apply (op : Operation) : Sound (e.apply op) := by
  have hc := h.toConsistent.apply op
  -- nothing but a removal takes nodes away
  have ht : (∀ n, op ≠ .destroy n) → ∀ {n}, e.tree.contains n → (e.apply op).tree.contains n := by
    intro hd n hn
    rcases tree_apply e op with he | ⟨change, he, _, hr, _⟩
    case inl => rwa [he]
    case inr =>
      rw [he]
      exact change.contains_apply h.forest hn fun p hp => absurd (hr p hp) (hd p)
  cases op
  case destroy n => exact h.destroy n
  case declareForm n form => exact h.declareForm n form
  case addChild p => exact h.of_forms_eq hc (by rw [Engine.apply, addChild_eq]) (ht (by simp))
  case declareContext n x =>
    exact h.of_forms_eq hc (by rw [Engine.apply, declareContext_eq]; rfl) (ht (by simp))
  case subscribe n t o =>
    obtain ⟨_, _, he⟩ := subscribe_eq e n t o
    exact h.of_forms_eq hc (by rw [Engine.apply, he]) (ht (by simp))
  case bind n x name =>
    obtain ⟨_, _, he⟩ := bind_eq e n x name
    exact h.of_forms_eq hc (by rw [Engine.apply, he]) (ht (by simp))
  case setContext => exact h.of_forms_eq hc forms_setContext (ht (by simp))
  all_goals exact h.of_forms_eq hc rfl (ht (by simp))

end Sound

-- What happens to an engine: an operation, a value that is handed over, or something that is noted by
-- somebody else.
inductive Step : Engine → Engine → Prop
  | operation (e : Engine) (op : Operation) : Step e (e.apply op)
  | handOver (e : Engine) (root : NodeId) (p : Path) (v : Value) : Step e (e.handOver root p v).2
  | report (e : Engine) (reports : List Report) : Step e (e.report reports)

abbrev Leads : Engine → Engine → Prop :=
  Relation.ReflTransGen Step

theorem Step.sound (h : Step e e') (hs : Sound e) : Sound e' := by
  cases h
  case operation op => exact hs.apply op
  case handOver root p v => exact hs.handOver root p v
  case report reports => exact hs.report reports

theorem Step.later (h : Step e e') (hs : Sound e) : Tree.Later e.tree e'.tree := by
  cases h
  case operation op =>
    rcases tree_apply e op with he | ⟨change, he, _⟩
    case inl =>
      rw [he]
      exact .refl hs.forest
    case inr =>
      rw [he]
      exact .apply hs.forest change
  case report => exact .refl hs.forest
  case handOver root p v =>
    have hh := handingOver e root p v
    generalize (e.handOver root p v).1 = r at hh
    generalize (e.handOver root p v).2 = e' at hh ⊢
    have hl (v : Value) := Tree.Later.apply hs.forest (.setHandoff root v)
    cases hh
    case missing => exact .refl hs.forest
    case conflict => exact hl _
    case done new _ _ => exact (hl _).trans (.apply (hl _).forest (.setHandoff root new))

theorem Leads.sound (h : Leads e e') (hs : Sound e) : Sound e' := by
  induction h
  case refl => exact hs
  case tail hst hi => exact hst.sound hi

theorem Leads.later (h : Leads e e') (hs : Sound e) : Tree.Later e.tree e'.tree := by
  induction h
  case refl => exact .refl hs.forest
  case tail h hst hi => exact hi.trans (hst.later (Leads.sound h hs))

theorem Leads.nothing_left (h : Leads e e') (hs : Sound e) (hn : ¬e'.tree.contains n)
    (hm : n ∈ e.tree.ancestors m) :
    ¬e'.tree.contains m ∧ Table.get? e'.forms m = none ∧
      ∀ i s, e'.subscriptions.subscription? i = some s → s.node ≠ m := by
  have hg := (h.later hs).not_contains_of_mem_ancestors hm hn
  refine ⟨hg, ?_, fun i s hi he => hg (he ▸ (h.sound hs).live hi)⟩
  cases hf : Table.get? e'.forms m
  case none => rfl
  case some form => exact absurd ((h.sound hs).formed hf) hg

section BaseUrl

theorem baseUrl_apply (e : Engine) (op : Operation) : (e.apply op).baseUrl = e.baseUrl := by
  cases op
  case addChild p => rw [apply, addChild_eq]
  case declareContext n x =>
    rw [apply, declareContext_eq]
    rfl
  case declareForm n form =>
    obtain ⟨_, _, he⟩ := declareForm_eq e n form
    rw [apply, he]
  case destroy n =>
    obtain ⟨_, _, he⟩ := destroy_eq e n
    rw [apply, he]
  case subscribe n t o =>
    obtain ⟨_, _, he⟩ := subscribe_eq e n t o
    rw [apply, he]
  case bind n x name =>
    obtain ⟨_, _, he⟩ := bind_eq e n x name
    rw [apply, he]
  case setContext => exact baseUrl_setContext
  all_goals rfl

theorem Step.baseUrl_eq (h : Step e e') : e'.baseUrl = e.baseUrl := by
  cases h
  case operation op => exact baseUrl_apply e op
  case report => rfl
  case handOver root p v =>
    have hh := handingOver e root p v
    generalize (e.handOver root p v).1 = r at hh
    generalize (e.handOver root p v).2 = e' at hh ⊢
    cases hh <;> rfl

theorem Leads.baseUrl_eq (h : Leads e e') : e'.baseUrl = e.baseUrl := by
  induction h
  case refl => rfl
  case tail hst hi => exact hst.baseUrl_eq.trans hi

end BaseUrl

end BindingEngine.Engine
