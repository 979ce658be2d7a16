import BindingEngine.Proofs.Engine.Course
import BindingEngine.Proofs.Tree.Outside

namespace BindingEngine.Engine

variable {e e' e'' : Engine} {r n a root : NodeId} {id : String} {p : Path} {v : Value}

structure SameOutside (r : NodeId) (e e' : Engine) : Prop where
  tree : Tree.SameOutside r e.tree e'.tree
  subscription? (i : Nat) (s : Subscription) :
    (e'.subscriptions.subscription? i = some s ∧ r ∉ e'.tree.ancestors s.node) ↔
      (e.subscriptions.subscription? i = some s ∧ r ∉ e.tree.ancestors s.node)
  form? (n : NodeId) (form : Form) :
    (Table.get? e'.forms n = some form ∧ r ∉ e'.tree.ancestors n) ↔
      (Table.get? e.forms n = some form ∧ r ∉ e.tree.ancestors n)
  global : e'.global = e.global
  baseUrl : e'.baseUrl = e.baseUrl

namespace SameOutside

theorem refl (r : NodeId) (e : Engine) : SameOutside r e e where
  tree _ _ := Iff.rfl
  subscription? _ _ := Iff.rfl
  form? _ _ := Iff.rfl
  global := rfl
  baseUrl := rfl

theorem trans (h : SameOutside r e e') (h' : SameOutside r e' e'') : SameOutside r e e'' where
  tree m d := (h'.tree m d).trans (h.tree m d)
  subscription? i s := (h'.subscription? i s).trans (h.subscription? i s)
  form? n form := (h'.form? n form).trans (h.form? n form)
  global := h'.global.trans h.global
  baseUrl := h'.baseUrl.trans h.baseUrl

end SameOutside

-- An operation that touches nothing but what is below `r`. The node `r` itself stays.
def Operation.Below (e : Engine) (r : NodeId) : Operation → Prop
  | .createRoot => False
  | .addChild p => e.tree.contains p → r ∈ e.tree.ancestors p
  | .declareContext n _ => e.tree.contains n → r ∈ e.tree.ancestors n
  | .declareForm n _ => e.tree.contains n → r ∈ e.tree.ancestors n
  | .destroy n => e.tree.contains n → r ∈ e.tree.ancestors n ∧ n ≠ r
  | .evaluate _ _ _ => True
  | .subscribe n _ _ => e.tree.contains n → r ∈ e.tree.ancestors n
  | @Operation.bind _ _ n _ _ => e.tree.contains n → r ∈ e.tree.ancestors n
  | .unsubscribe i => ∀ s, e.subscriptions.subscription? i = some s → r ∈ e.tree.ancestors s.node
  | .setContext id _ _ n =>
    ∀ l, e.locate? id n = some l → ∃ a, l = .node a ∧ r ∈ e.tree.ancestors a
  | .notify _ l => ∃ a, l = .node a ∧ (e.tree.contains a → r ∈ e.tree.ancestors a)

theorem outside_iff {β : Type} {x x' : Option β} (node : β → NodeId) {t t' : Tree}
    (ht : Tree.SameOutside r t t') (hx : ∀ {b}, x = some b → t.contains (node b))
    (hx' : ∀ {b}, x' = some b → t'.contains (node b))
    (h : x' = x ∨ (∀ b, x = some b → r ∈ t.ancestors (node b)) ∧
      ∀ b, x' = some b → r ∈ t'.ancestors (node b)) (b : β) :
    (x' = some b ∧ r ∉ t'.ancestors (node b)) ↔ (x = some b ∧ r ∉ t.ancestors (node b)) := by
  cases h
  case inl he =>
    rw [he]
    refine and_congr_right fun hb => not_congr ?_
    exact ht.mem_ancestors_iff (hx hb) (hx' (he.trans hb))
  case inr hb => exact iff_of_false (fun h => h.2 (hb.2 b h.1)) fun h => h.2 (hb.1 b h.1)

theorem sameOutside_of (h : Sound e) (h' : Sound e') (ht : Tree.SameOutside r e.tree e'.tree)
    (hs : ∀ i, e'.subscriptions.subscription? i = e.subscriptions.subscription? i ∨
      (∀ s, e.subscriptions.subscription? i = some s → r ∈ e.tree.ancestors s.node) ∧
        ∀ s, e'.subscriptions.subscription? i = some s → r ∈ e'.tree.ancestors s.node)
    (hf : ∀ n, Table.get? e'.forms n = Table.get? e.forms n ∨
      (∀ form, Table.get? e.forms n = some form → r ∈ e.tree.ancestors n) ∧
        ∀ form, Table.get? e'.forms n = some form → r ∈ e'.tree.ancestors n)
    (hg : e'.global = e.global) (hb : e'.baseUrl = e.baseUrl) : SameOutside r e e' where
  tree := ht
  subscription? i := outside_iff Subscription.node ht h.live h'.live (hs i)
  form? n := outside_iff (fun _ => n) ht h.formed h'.formed (hf n)
  global := hg
  baseUrl := hb

section Changes

variable (h : Sound e)

include h

theorem sameOutside_tree {t : Tree} (h' : Sound { e with tree := t })
    (ht : Tree.SameOutside r e.tree t) : SameOutside r e { e with tree := t } :=
  sameOutside_of h h' ht (fun _ => .inl rfl) (fun _ => .inl rfl) rfl rfl

theorem sameOutside_report (reports : List Report) : SameOutside r e (e.report reports) :=
  sameOutside_of h (h.report reports) (fun _ _ => Iff.rfl) (fun _ => .inl rfl) (fun _ => .inl rfl)
    rfl rfl

theorem Sound.setHandoff (root : NodeId) (v : Value) :
    Sound { e with tree := e.tree.setHandoff root v } :=
  h.of_forms_eq (h.toConsistent.tree (.setHandoff root v) (by simp)) rfl Tree.contains_modify.trans

theorem Sound.notify (id : String) (l : Location) : Sound (e.notify id l).2 :=
  h.of_forms_eq (h.toConsistent.notify id l) rfl fun hn => hn

theorem sameOutside_notify (ha : e.tree.contains a → r ∈ e.tree.ancestors a) :
    SameOutside r e (e.notify id (.node a)).2 := by
  refine sameOutside_of h (h.notify id (.node a)) (fun _ _ => Iff.rfl) (fun i => ?_)
    (fun _ => .inl rfl) rfl rfl
  cases hs : e.subscriptions.subscription? i
  case none =>
    exact .inl ((Registry.subscription?_notify h.forest h.indexed).trans (by rw [hs, Option.map_none]))
  case some s =>
    have hn := subscription?_notify h.toConsistent hs id (.node a)
    by_cases hd : s.Due e.tree e.global id (.node a)
    case neg =>
      rw [Subscription.notified, if_neg hd] at hn
      exact .inl hn
    case pos =>
      obtain ⟨_, ha', _⟩ := Tree.of_locate?_eq_node hd.2.1
      have hr := h.forest.ancestors_trans (ha (h.forest.contains_of_mem_ancestors ha')) ha'
      refine .inr ⟨fun _ he => Option.some.inj he ▸ hr, fun s' he => ?_⟩
      have hs' : s.notified e.tree e.global id (.node a) = s' := Option.some.inj (hn.symm.trans he)
      rw [← hs', Subscription.notified_node]
      exact hr

theorem sameOutside_destroy (hn : e.tree.contains n → r ∈ e.tree.ancestors n ∧ n ≠ r) :
    SameOutside r e (e.destroy n).2 := by
  have hb : ∀ {m}, n ∈ e.tree.ancestors m → r ∈ e.tree.ancestors m := fun hm =>
    h.forest.ancestors_trans (hn (h.forest.contains_of_mem_ancestors hm)).1 hm
  obtain ⟨_, _, he⟩ := destroy_eq e n
  refine sameOutside_of h (h.destroy n) ?tree (fun i => ?subscription) (fun m => ?form) (by rw [he])
    (by rw [he])
  case tree =>
    rw [tree_destroy]
    exact Tree.sameOutside_remove h.forest hn
  case subscription =>
    rw [subscription?_destroy h.forest h.indexed]
    cases hs : e.subscriptions.subscription? i
    case none => exact .inl rfl
    case some s =>
      by_cases hm : n ∈ e.tree.ancestors s.node
      case neg => exact .inl (by simp [hm])
      case pos => exact .inr ⟨fun _ he => Option.some.inj he ▸ hb hm, by simp [hm]⟩
  case form =>
    rw [form?_destroy h.forest]
    by_cases hm : n ∈ e.tree.ancestors m
    case neg => exact .inl (if_neg hm)
    case pos => exact .inr ⟨fun _ _ => hb hm, by simp [hm]⟩

theorem sameOutside_subscribe (t : Template) (o : Observer)
    (hn : e.tree.contains n → r ∈ e.tree.ancestors n) : SameOutside r e (e.subscribe n t o).2 := by
  by_cases hc : e.tree.contains n
  case neg =>
    rw [subscribe_eq_of_not_contains hc]
    exact .refl r e
  case pos =>
    have h' : Sound (e.subscribe n t o).2 := h.apply (.subscribe n t o)
    obtain ⟨_, he⟩ := subscribe_eq_of_contains hc (t := t) (o := o)
    rw [he] at h' ⊢
    refine sameOutside_of h h' (fun _ _ => Iff.rfl) (fun i => ?_) (fun _ => .inl rfl) rfl rfl
    rw [Registry.subscription?_insert]
    by_cases hi : i = e.subscriptions.nextId
    case neg => exact .inl (if_neg hi)
    case pos =>
      rw [hi, h.indexed.subscription?_nextId, if_pos rfl]
      refine .inr ⟨by simp, fun s hs => ?_⟩
      rw [← Option.some.inj hs]
      exact hn hc

theorem sameOutside_setContext (hb : (Operation.setContext id p v n).Below e r) :
    SameOutside r e (e.setContext id p v n).2 := by
  have hb : ∀ l, e.locate? id n = some l → ∃ a, l = .node a ∧ r ∈ e.tree.ancestors a := hb
  have hm := mutation e id p v n
  generalize (e.setContext id p v n).1 = outcome at hm
  generalize (e.setContext id p v n).2 = e' at hm ⊢
  cases hm
  case invisible => exact .refl r e
  case unchanged => exact sameOutside_report h _
  case conflict => exact .refl r e
  case changed l old new hl _ _ _ =>
    obtain ⟨a, rfl, ha⟩ := hb l hl
    have hs : Sound (e.setAt id new (.node a)) :=
      h.of_forms_eq (h.toConsistent.setAt id new _) rfl fun hc =>
        Tree.Operation.contains_apply h.forest hc (.setContext a id new) (by simp)
    have ht : Tree.SameOutside r e.tree (e.setAt id new (.node a)).tree :=
      Tree.sameOutside_apply h.forest (.setContext a id new) fun _ => ha
    obtain ⟨_, ha', _⟩ := Tree.of_locate?_eq_node hl
    have hc := h.forest.contains_of_mem_ancestors ha'
    refine (sameOutside_tree h hs ht).trans ((sameOutside_report hs _).trans
      (sameOutside_notify (hs.report _) fun hc' => ?_))
    exact (ht.mem_ancestors_iff hc hc').mpr ha

theorem sameOutside_setHandoff (root : NodeId) (v : Value) :
    SameOutside root e { e with tree := e.tree.setHandoff root v } :=
  sameOutside_tree h (h.setHandoff root v) <|
    Tree.sameOutside_apply h.forest (.setHandoff root v) Tree.mem_ancestors_self

theorem sameOutside_handOver (root : NodeId) (p : Path) (v : Value) :
    SameOutside root e (e.handOver root p v).2 := by
  have hh := handingOver e root p v
  generalize (e.handOver root p v).1 = outcome at hh
  generalize (e.handOver root p v).2 = e' at hh ⊢
  cases hh
  case missing => exact .refl root e
  case conflict => exact sameOutside_setHandoff h root _
  case done new _ _ =>
    have h₁ := h.setHandoff root (e.handoff root)
    have h₂ := h₁.setHandoff root new
    refine (sameOutside_setHandoff h root _).trans ((sameOutside_setHandoff h₁ root new).trans ?_)
    exact (sameOutside_report h₂ _).trans
      (sameOutside_notify (h₂.report _) Tree.mem_ancestors_self)

theorem sameOutside_apply {op : Operation} (hb : op.Below e r) : SameOutside r e (e.apply op) := by
  have h' := h.apply op
  cases op
  case createRoot => exact absurd hb id
  case addChild p =>
    rw [apply, addChild_eq] at h' ⊢
    exact sameOutside_tree h h' (Tree.sameOutside_apply h.forest (.addChild p) hb)
  case declareContext n x =>
    rw [apply, declareContext_eq] at h' ⊢
    exact sameOutside_of h h' (Tree.sameOutside_apply h.forest (.declare n x) hb)
      (fun _ => .inl rfl) (fun _ => .inl rfl) rfl rfl
  case declareForm n form =>
    by_cases hn : e.tree.contains n
    case neg =>
      rw [show e.apply (.declareForm n form) = e by simp [apply, declareForm, hn]]
      exact .refl r e
    case pos =>
      rw [show e.apply (.declareForm n form) = _ by rw [apply, declareForm, if_pos hn]] at h' ⊢
      refine sameOutside_of h h' (fun _ _ => Iff.rfl) (fun _ => .inl rfl) (fun m => ?_) rfl rfl
      by_cases hm : m = n
      case neg => exact .inl ((Table.get?_insert ..).trans (if_neg hm))
      case pos => exact .inr ⟨fun _ _ => hm ▸ hb hn, fun _ _ => hm ▸ hb hn⟩
  case destroy n => exact sameOutside_destroy h hb
  case evaluate => exact sameOutside_report h _
  case subscribe n t o => exact sameOutside_subscribe h t o hb
  case bind n x name =>
    cases x
    case value => exact sameOutside_report h _
    case binding t => exact sameOutside_subscribe h t _ hb
  case unsubscribe i =>
    refine sameOutside_of h h' (fun _ _ => Iff.rfl) (fun j => ?_) (fun _ => .inl rfl) rfl rfl
    have hs : (e.apply (.unsubscribe i)).subscriptions.subscription? j = _ :=
      Registry.subscription?_remove
    rw [hs]
    by_cases hj : j = i
    case neg => exact .inl (if_neg hj)
    case pos => exact .inr ⟨fun s hs => hb s (hj ▸ hs), by simp [hj]⟩
  case setContext id p v n => exact sameOutside_setContext h hb
  case notify id l =>
    obtain ⟨a, rfl, ha⟩ := hb
    exact sameOutside_notify h ha

end Changes

end BindingEngine.Engine
