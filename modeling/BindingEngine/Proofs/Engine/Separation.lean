import BindingEngine.Proofs.Engine.Outside
import BindingEngine.Proofs.Engine.Removal
import BindingEngine.Proofs.Tree.Links

namespace BindingEngine

def Report.Spares (m : NodeId) (r : Report) : Prop :=
  ¬r.isUpdating ∧ ∀ o v, r.received? ≠ some (o, m, v)

theorem Report.spares_of_isSilent {m : NodeId} {r : Report} (h : r.isSilent) : r.Spares m := by
  simp only [isSilent, Bool.and_eq_true, Option.isNone_iff_eq_none, Bool.not_eq_true'] at h
  exact ⟨by simp [h.2], by simp [h.1]⟩

namespace Observer

variable {o : Observer} {a m : NodeId} {v w : Value} {name : String}

theorem eq_of_received (h : (o.receive a v).received? = some (name, m, w)) : a = m := by
  unfold receive at h
  split at h
  case h_1 => exact congrArg (·.2.1) (Option.some.inj h)
  case h_2 => contradiction

theorem spares_receive (o : Observer) (v : Value) (h : a ≠ m) : (o.receive a v).Spares m := by
  refine ⟨?_, fun name w hw => h (eq_of_received hw)⟩
  unfold receive
  split <;> simp [Report.isUpdating]

end Observer

theorem Subscription.of_received_answer {s : Subscription} {t : Tree} {g v : Value} {id name : String}
    {l : Location} {i : Nat} {m : NodeId} {report : Report} (h : report ∈ s.answer t g id l i)
    (hr : report.received? = some (name, m, v)) : s.node = m ∧ t.locate? id s.node = some l := by
  unfold answer at h
  split at h
  case isFalse => contradiction
  case isTrue hl =>
    refine ⟨?_, hl⟩
    rcases List.mem_append.mp h with h | h
    case inl =>
      obtain ⟨_, _, rfl⟩ := List.mem_map.mp h
      contradiction
    case inr =>
      obtain ⟨call, hc, h⟩ := List.mem_flatMap.mp h
      have hc := Option.mem_toList.mp hc
      unfold call? at hc
      split at hc
      case isFalse => contradiction
      case isTrue =>
        obtain rfl := Option.some.inj hc
        rcases List.mem_pair.mp h with rfl | rfl
        case inl => contradiction
        case inr => exact Observer.eq_of_received hr

namespace Registry

variable {r : Registry} {m : NodeId} {reports : List Report} {t : Tree} {g : Value} {id : String}
variable {l : Location}

-- No callback of a subscription of `m` runs, and nothing is delivered to `m`.
structure Unheard (r : Registry) (m : NodeId) (reports : List Report) : Prop where
  calls (i : Nat) (s : Subscription) : r.subscription? i = some s → s.node = m →
    (Report.calls reports).filter (·.1 = i) = []
  received (report : Report) : report ∈ reports → ∀ o v, report.received? ≠ some (o, m, v)

theorem Unheard.append {quiet : List Report} (hq : ∀ report ∈ quiet, report.Spares m)
    (h : Unheard r m reports) : Unheard r m (quiet ++ reports) where
  calls i s hi hs := by rw [Report.calls_append fun r hr => (hq r hr).1, h.calls i s hi hs]
  received r hr := (List.mem_append.mp hr).elim (fun hr => (hq r hr).2) (h.received r)

theorem unheard_of_spares (h : ∀ report ∈ reports, report.Spares m) : Unheard r m reports := by
  have hn : Unheard r m [] := ⟨fun _ _ _ _ => rfl, by simp⟩
  simpa using hn.append h

theorem unheard_of_silent (h : ∀ report ∈ reports, report.isSilent) : Unheard r m reports :=
  unheard_of_spares fun report hr => Report.spares_of_isSilent (h report hr)

theorem unheard_notify (f : t.Forest) (h : r.Indexed) (hl : t.locate? id m ≠ some l) :
    Unheard r m (r.notify t g id l).2.2 := by
  constructor
  case calls =>
    intro i s hi hs
    have hn : ¬s.Due t g id l := fun hd => hl (hs ▸ hd.2.1)
    rw [calls_notify_of f h hi, if_neg hn]
  case received =>
    intro report hr o v he
    rw [reports_notify f h] at hr
    obtain ⟨i, _, hr⟩ := List.mem_flatMap.mp hr
    cases hi : r.subscription? i
    case none => simp [hi] at hr
    case some s =>
      rw [hi, Option.map_some, Option.getD_some] at hr
      obtain ⟨hn, hs⟩ := Subscription.of_received_answer hr he
      exact hl (hn ▸ hs)

end Registry

namespace Engine

variable {e e' : Engine} {a m r root : NodeId} {id : String} {l : Location} {p : Path} {v : Value}

-- What is asked of a node or of one of its subscriptions, the global context left aside.
def Operation.At (e : Engine) (a : NodeId) : Operation → Prop
  | .createRoot => False
  | .addChild p => p = a
  | .declareContext n _ => n = a
  | .declareForm n _ => n = a
  | .destroy n => n = a
  | .evaluate _ n _ => n = a
  | .subscribe n _ _ => n = a
  | @Operation.bind _ _ n _ _ => n = a
  | .unsubscribe i => ∃ s, e.subscriptions.subscription? i = some s ∧ s.node = a
  | .setContext id _ _ n => n = a ∧ id ≠ globalId
  | .notify _ l => l = .node a

inductive StepAt (e : Engine) (a : NodeId) : Engine → Prop
  | operation (op : Operation) : op.At e a → StepAt e a (e.apply op)
  | handOver (p : Path) (v : Value) : StepAt e a (e.handOver a p v).2

section State

-- The nodes on the way from `m` to its root hold what they held. So do the forms there and the
-- subscriptions of `m`.
structure KeptAround (e e' : Engine) (m : NodeId) : Prop where
  node? {b : NodeId} : b ∈ e.tree.ancestors m → e'.tree.node? b = e.tree.node? b
  form? {b : NodeId} : b ∈ e.tree.ancestors m → Table.get? e'.forms b = Table.get? e.forms b
  subscription? (i : Nat) (s : Subscription) : s.node = m →
    (e'.subscriptions.subscription? i = some s ↔ e.subscriptions.subscription? i = some s)
  global : e'.global = e.global

theorem KeptAround.sameAt (h : KeptAround e e' m) (hm : e.tree.contains m) : SameAt e e' m := by
  have hn := h.node? (Tree.mem_ancestors_self hm)
  have hv : Tree.SameView e.tree e'.tree m := .of_nodes fun b hb => by
    have hb : b ∈ e.tree.ancestors m := hb.elim (fun he => he ▸ Tree.mem_ancestors_self (he ▸ hm)) id
    rw [h.node? hb]
  have hr (id : String) : e'.resolve id m = e.resolve id m := by
    rw [Engine.resolve, scope, h.global]
    exact hv.resolve
  constructor
  case contains => simp only [Tree.contains, hn]
  case resolve => exact hr
  case locate? => exact fun id => hv.locate?
  case evaluate =>
    intro t implicit
    simp only [evaluate, resolve_scope_congr hr]
  case enclosingForm? =>
    rw [Engine.enclosingForm?, Engine.enclosingForm?, hv.ancestors, ← List.head?_filterMap,
      ← List.head?_filterMap, List.filterMap_congr fun b hb => by rw [h.form? hb]]
  case subscription? => exact h.subscription?

theorem SameOutside.keptAround (h : SameOutside r e e') (f : e.tree.Forest)
    (hm : e.tree.contains m) (hr : r ∉ e.tree.ancestors m) : KeptAround e e' m := by
  have hb {b : NodeId} (hb : b ∈ e.tree.ancestors m) : r ∉ e.tree.ancestors b := fun h =>
    hr (f.ancestors_trans h hb)
  have hn {b : NodeId} (hbm : b ∈ e.tree.ancestors m) : e'.tree.node? b = e.tree.node? b := by
    obtain ⟨d, hd⟩ := Tree.contains_iff.mp (f.contains_of_mem_ancestors hbm)
    rw [hd, ((h.tree b d).mpr ⟨hd, hb hbm⟩).1]
  have ha {b : NodeId} (hbm : b ∈ e.tree.ancestors m) :
      r ∉ e'.tree.ancestors b ↔ r ∉ e.tree.ancestors b := by
    rw [Tree.ancestors_of_node?_eq (hn hbm)]
  constructor
  case node? => exact hn
  case form? =>
    intro b hbm
    refine Option.ext fun form => ?_
    have hf := h.form? b form
    rwa [ha hbm, and_iff_left (hb hbm), and_iff_left (hb hbm)] at hf
  case subscription? =>
    intro i s hs
    have hi := h.subscription? i s
    rwa [hs, ha (Tree.mem_ancestors_self hm), and_iff_left hr, and_iff_left hr] at hi
  case global => exact h.global

variable (h : Sound e) (hd : ∀ b ∈ e.tree.ancestors a, b ∉ e.tree.ancestors m)

include h hd

theorem keptAround_destroy : KeptAround e (e.destroy a).2 m := by
  have f := h.forest
  have ha {b : NodeId} (hb : b ∈ e.tree.ancestors m) : a ∉ e.tree.ancestors b := fun hab =>
    hd a (Tree.mem_ancestors_self (f.contains_of_mem_ancestors hab)) (f.ancestors_trans hab hb)
  constructor
  case node? =>
    intro b hb
    obtain ⟨d, hb'⟩ := Tree.contains_iff.mp (f.contains_of_mem_ancestors hb)
    have hc : a ∉ d.children := fun hc => by
      refine hd b ?_ hb
      rw [f.ancestors_child hb' hc]
      exact List.mem_cons_of_mem a (Tree.mem_ancestors_self (f.contains_of_mem_ancestors hb))
    rw [tree_destroy, f.node?_remove, if_neg (ha hb), hb', Option.map_some,
      Node.without_of_not_mem hc]
  case form? => exact fun hb => (form?_destroy f).trans (if_neg (ha hb))
  case subscription? =>
    intro i s hs
    rw [subscription?_destroy f h.indexed, Option.filter_eq_some_iff, hs, decide_eq_true_eq]
    refine and_iff_left fun ham => ?_
    exact hd a (Tree.mem_ancestors_self (f.contains_of_mem_ancestors ham)) ham
  case global =>
    obtain ⟨_, _, he⟩ := destroy_eq e a
    rw [he]

end State

section Steps

variable (h : Sound e) (hr : e.tree.root? a ≠ e.tree.root? m)

include h hr

-- The node `a` is below a node that `m` is not below, and so is every node that `a` can see.
theorem exists_top : ∃ r, (e.tree.contains a → r ∈ e.tree.ancestors a) ∧
    (∀ b ∈ e.tree.ancestors a, r ∈ e.tree.ancestors b) ∧ r ∉ e.tree.ancestors m := by
  have f := h.forest
  cases ha : e.tree.root? a
  case some r =>
    have hra : r ∈ e.tree.ancestors a := List.mem_of_getLast? ha
    exact ⟨r, fun _ => hra, fun b hb => f.mem_ancestors_of_root? ha hb,
      f.not_mem_ancestors_of_root?_ne hr hra⟩
  case none =>
    have hn : e.tree.ancestors a = [] := List.getLast?_eq_none_iff.mp ha
    have hc : ¬e.tree.contains a := fun hc => Tree.ancestors_ne_nil_iff.mpr hc hn
    exact ⟨a, fun h => absurd h hc, by simp [hn], fun hm => hc (f.contains_of_mem_ancestors hm)⟩

theorem keptAround_apply (hm : e.tree.contains m) {op : Operation} (ho : op.At e a) :
    KeptAround e (e.apply op) m := by
  obtain ⟨r, hra, hrb, hrm⟩ := exists_top h hr
  have hb : (∀ n, op ≠ .destroy n) → KeptAround e (e.apply op) m := by
    intro hd
    refine (sameOutside_apply h ?_).keptAround h.forest hm hrm
    cases op
    case createRoot => exact ho
    case destroy n => exact absurd rfl (hd n)
    case evaluate => trivial
    case unsubscribe i =>
      obtain ⟨s, hs, rfl⟩ := ho
      intro s' hs'
      obtain rfl := Option.some.inj (hs.symm.trans hs')
      exact hra (h.live hs)
    case setContext id p v n =>
      obtain ⟨rfl, hid⟩ := ho
      intro l hl
      cases l
      case global => exact absurd (Tree.locate?_eq_global_iff.mp hl) hid
      case node b => exact ⟨b, rfl, hrb b (Tree.of_locate?_eq_node hl).2.1⟩
    case notify id l => exact ⟨a, ho, hra⟩
    all_goals exact ho ▸ hra
  cases op
  case destroy n =>
    obtain rfl : n = a := ho
    exact keptAround_destroy h fun b => h.forest.not_mem_ancestors_of_root?_ne hr
  all_goals exact hb (by simp)

theorem keptAround_handOver (hm : e.tree.contains m) (p : Path) (v : Value) :
    KeptAround e (e.handOver a p v).2 m := by
  refine (sameOutside_handOver h a p v).keptAround h.forest hm fun ham => ?_
  exact hr (h.forest.root?_of_mem_ancestors ham)

theorem locate?_ne_of_root?_ne {b : NodeId} (hb : e.tree.contains b → b ∈ e.tree.ancestors a) :
    e.locate? id m ≠ some (.node b) := by
  intro hl
  have f := h.forest
  have hbm := (Tree.of_locate?_eq_node hl).2.1
  exact f.not_mem_ancestors_of_root?_ne hr (hb (f.contains_of_mem_ancestors hbm)) hbm

theorem unheard_setContext (hid : id ≠ globalId) (p : Path) (v : Value) : ∃ reports,
    (e.setContext id p v a).2.journal = e.journal ++ reports ∧
      e.subscriptions.Unheard m reports := by
  have hm := mutation e id p v a
  generalize (e.setContext id p v a).1 = outcome at hm
  generalize (e.setContext id p v a).2 = e' at hm ⊢
  cases hm
  case changed l old new hl _ _ _ =>
    cases l
    case global => exact absurd (Tree.locate?_eq_global_iff.mp hl) hid
    case node b =>
      have hn : (e.setAt id new (.node b)).locate? id m ≠ some (.node b) := by
        rw [locate?_setAt hl]
        exact locate?_ne_of_root?_ne h hr fun _ => (Tree.of_locate?_eq_node hl).2.1
      have hc := h.toConsistent.setAt id new (.node b)
      refine ⟨_, List.append_assoc .., .append (fun report hr => Report.spares_of_isSilent ?_)
        (Registry.unheard_notify hc.forest hc.indexed hn)⟩
      cases List.mem_cons.mp hr
      case inl hr => exact hr ▸ rfl
      case inr hr =>
        obtain ⟨_, _, rfl⟩ := List.mem_map.mp hr
        rfl
  case unchanged => exact ⟨_, rfl, Registry.unheard_of_silent (List.forall_mem_singleton.mpr rfl)⟩
  all_goals exact ⟨[], (List.append_nil _).symm, Registry.unheard_of_silent (by simp)⟩

theorem unheard_handOver (p : Path) (v : Value) : ∃ reports,
    (e.handOver a p v).2.journal = e.journal ++ reports ∧ e.subscriptions.Unheard m reports := by
  have hh := handingOver e a p v
  generalize (e.handOver a p v).1 = outcome at hh
  generalize (e.handOver a p v).2 = e' at hh ⊢
  cases hh
  case done new _ _ =>
    have h₁ := (h.setHandoff a (e.handoff a)).setHandoff a new
    refine ⟨_, List.append_assoc .., .append (fun report hr => Report.spares_of_isSilent ?_)
      (Registry.unheard_notify h₁.forest h₁.indexed fun hl => ?_)⟩
    case refine_1 => exact List.mem_singleton.mp hr ▸ rfl
    case refine_2 =>
      have ha : a ∈ ((e.tree.setHandoff a (e.handoff a)).setHandoff a new).ancestors m :=
        (Tree.of_locate?_eq_node hl).2.1
      rw [Tree.ancestors_setHandoff, Tree.ancestors_setHandoff] at ha
      exact hr (h.forest.root?_of_mem_ancestors ha)
  all_goals exact ⟨[], (List.append_nil _).symm, Registry.unheard_of_silent (by simp)⟩

omit h in
theorem ne_of_root?_ne : a ≠ m := fun he =>
  hr (he ▸ rfl)

omit h in
theorem unheard_subscribe (t : Template) (o : Observer) : ∃ reports,
    (e.subscribe a t o).2.journal = e.journal ++ reports ∧ e.subscriptions.Unheard m reports := by
  by_cases hc : e.tree.contains a
  case neg =>
    rw [subscribe_eq_of_not_contains hc]
    exact ⟨[], (List.append_nil _).symm, Registry.unheard_of_silent (by simp)⟩
  case pos =>
    have ho := o.spares_receive (e.evaluate t a).1 (ne_of_root?_ne hr)
    simp only [subscribe, hc, if_true, report, List.append_assoc]
    refine ⟨_, List.append_assoc .., Registry.unheard_of_spares fun report hm => ?_⟩
    rcases List.mem_append.mp hm with hm | hm
    case inl =>
      obtain ⟨_, _, rfl⟩ := List.mem_map.mp hm
      exact Report.spares_of_isSilent rfl
    case inr =>
      rcases List.mem_pair.mp hm with rfl | rfl
      case inl => exact ho
      case inr => exact Report.spares_of_isSilent rfl

theorem unheard_apply {op : Operation} (ho : op.At e a) : ∃ reports,
    (e.apply op).journal = e.journal ++ reports ∧ e.subscriptions.Unheard m reports := by
  have hq (reports : List Report) (hs : ∀ report ∈ reports, report.isSilent) :
      ∃ new, e.journal ++ reports = e.journal ++ new ∧ e.subscriptions.Unheard m new :=
    ⟨reports, rfl, Registry.unheard_of_silent hs⟩
  have hn : ∃ new, e.journal = e.journal ++ new ∧ e.subscriptions.Unheard m new := by
    simpa using hq [] (by simp)
  cases op
  case createRoot => exact absurd ho id
  case addChild p =>
    rw [apply, addChild_eq]
    exact hn
  case declareContext n x =>
    rw [apply, declareContext_eq]
    exact hq _ (List.forall_mem_singleton.mpr rfl)
  case declareForm n form =>
    simp only [apply, declareForm]
    split
    case isTrue => exact hq _ (List.forall_mem_singleton.mpr rfl)
    case isFalse => exact hn
  case destroy n =>
    obtain ⟨reports, hs, hj⟩ := journal_destroy e n
    exact ⟨reports, hj, Registry.unheard_of_silent hs⟩
  case evaluate t n implicit =>
    refine hq _ fun report hm => ?_
    obtain ⟨_, _, rfl⟩ := List.mem_map.mp hm
    rfl
  case subscribe n t o =>
    obtain rfl : n = a := ho
    exact unheard_subscribe hr t o
  case bind n x name =>
    obtain rfl : n = a := ho
    cases x
    case binding t => exact unheard_subscribe hr t _
    case value b =>
      refine ⟨_, rfl, Registry.unheard_of_spares fun report hm => ?_⟩
      rw [List.mem_singleton.mp hm]
      refine ⟨by simp [Report.isUpdating], fun name w he => ne_of_root?_ne hr ?_⟩
      exact congrArg (·.2.1) (Option.some.inj he)
  case unsubscribe i =>
    simp only [apply, Engine.unsubscribe, Registry.remove]
    split
    case h_1 => exact hq [] (by simp)
    case h_2 => exact hq _ (List.forall_mem_singleton.mpr rfl)
  case setContext id p v n =>
    obtain ⟨rfl, hid⟩ := ho
    exact unheard_setContext h hr hid p v
  case notify id l =>
    obtain rfl : l = .node a := ho
    exact ⟨_, rfl, Registry.unheard_notify h.forest h.indexed
      (locate?_ne_of_root?_ne h hr Tree.mem_ancestors_self)⟩

end Steps

-- Screens share nothing but the global context. Whatever is done at a node, every node on another screen
-- sees what it saw, keeps its place and owns what it owned, and none of its subscriptions hears of it.
theorem screens_separate (h : Reachable e) (hm : e.tree.contains m)
    (hr : e.tree.root? a ≠ e.tree.root? m) (hs : StepAt e a e') :
    SameAt e e' m ∧ e'.tree.parent? m = e.tree.parent? m ∧ e'.tree.children m = e.tree.children m ∧
    ∃ reports, e'.journal = e.journal ++ reports ∧ e.subscriptions.Unheard m reports := by
  have hk : KeptAround e e' m := by
    cases hs
    case operation op ho => exact keptAround_apply h.sound hr hm ho
    case handOver p v => exact keptAround_handOver h.sound hr hm p v
  have hn : e'.tree.node? m = e.tree.node? m := hk.node? (Tree.mem_ancestors_self hm)
  refine ⟨hk.sameAt hm, by simp only [Tree.parent?, hn], by simp only [Tree.children, hn], ?_⟩
  cases hs
  case operation op ho => exact unheard_apply h.sound hr ho
  case handOver p v => exact unheard_handOver h.sound hr p v

def twoScreens : Engine :=
  (start .null none).run
    [.createRoot, .declareContext ⟨0, 0⟩ ⟨"x", .int 1⟩, .subscribe ⟨0, 0⟩ readsX { name := "a" },
      .createRoot, .declareContext ⟨1, 0⟩ ⟨"x", .int 1⟩, .subscribe ⟨1, 0⟩ readsX { name := "b" }]

theorem twoScreens_separate :
    (twoScreens.setContext "x" [] (.int 2) ⟨0, 0⟩).2.resolve "x" ⟨0, 0⟩ = some (.int 2) ∧
    SameAt twoScreens (twoScreens.setContext "x" [] (.int 2) ⟨0, 0⟩).2 ⟨1, 0⟩ := by
  have hr : Reachable twoScreens := (Reachable.start .null none).run _
  have hs : StepAt twoScreens ⟨0, 0⟩ (twoScreens.setContext "x" [] (.int 2) ⟨0, 0⟩).2 :=
    .operation (.setContext "x" [] (.int 2) ⟨0, 0⟩) ⟨rfl, by decide⟩
  exact ⟨rfl, (screens_separate hr (by decide) (by decide) hs).1⟩

end Engine

end BindingEngine
