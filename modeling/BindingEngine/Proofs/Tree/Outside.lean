import BindingEngine.Proofs.Tree.History

namespace BindingEngine.Tree

variable {t t' t'' : Tree} {r n m p c : NodeId} {d : Node}

def SameOutside (r : NodeId) (t t' : Tree) : Prop :=
  ∀ m d, (t'.node? m = some d ∧ r ∉ t'.ancestors m) ↔ (t.node? m = some d ∧ r ∉ t.ancestors m)

-- An operation that touches nothing but what is below `r`. The node `r` itself stays.
def Operation.Below (t : Tree) (r : NodeId) : Operation → Prop
  | createRoot => False
  | addChild p => t.contains p → r ∈ t.ancestors p
  | declare n _ => t.contains n → r ∈ t.ancestors n
  | setContext n _ _ => t.contains n → r ∈ t.ancestors n
  | setHandoff n _ => t.contains n → r ∈ t.ancestors n
  | remove n => t.contains n → r ∈ t.ancestors n ∧ n ≠ r

theorem Operation.Below.sparesRoots {op : Operation} (h : op.Below t r) : op.SparesRoots t := by
  cases op
  case createRoot => exact h
  case remove n =>
    intro hn
    obtain ⟨hr, hne⟩ := h hn.1
    rw [isRoot_iff.mp hn, List.mem_singleton] at hr
    exact hne hr.symm
  all_goals trivial

theorem SameOutside.mem_ancestors_iff (h : SameOutside r t t') (hm : t.contains m)
    (hm' : t'.contains m) : r ∈ t'.ancestors m ↔ r ∈ t.ancestors m := by
  obtain ⟨d, hd⟩ := contains_iff.mp hm
  obtain ⟨d', hd'⟩ := contains_iff.mp hm'
  exact not_iff_not.mp
    ⟨fun hn => ((h m d').mp ⟨hd', hn⟩).2, fun hn => ((h m d).mpr ⟨hd, hn⟩).2⟩

theorem ancestors_of_node?_eq (h : t'.node? m = t.node? m) : t'.ancestors m = t.ancestors m := by
  simp only [ancestors, h]

theorem sameOutside_of (h : ∀ m, t'.node? m = t.node? m ∨
    (∀ d, t.node? m = some d → r ∈ t.ancestors m) ∧
      ∀ d, t'.node? m = some d → r ∈ t'.ancestors m) :
    SameOutside r t t' := by
  intro m d
  cases h m
  case inl he => rw [ancestors_of_node?_eq he, he]
  case inr hb =>
    exact iff_of_false (fun hn => hn.2 (hb.2 d hn.1)) fun hn => hn.2 (hb.1 d hn.1)

theorem sameOutside_modify {g : Node → Node} (hg : ∀ d, (g d).lineage = d.lineage)
    (h : t.contains n → r ∈ t.ancestors n) : SameOutside r t (t.modify n g) := by
  refine sameOutside_of fun m => ?_
  by_cases hm : m = n
  case neg => exact .inl (by rw [node?_modify, if_neg hm])
  case pos =>
    subst hm
    refine .inr ⟨fun d hd => h (contains_iff.mpr ⟨d, hd⟩), fun d hd => ?_⟩
    rw [ancestors_modify hg]
    exact h (contains_modify.symm.trans (contains_iff.mpr ⟨d, hd⟩))

section Operations

variable (f : t.Forest)

include f

theorem sameOutside_addChild (hp : t.addChild p = .ok (c, t')) (h : r ∈ t.ancestors p) :
    SameOutside r t t' := by
  obtain ⟨e, a⟩ := f.freeList.added hp
  refine sameOutside_of fun m => ?_
  by_cases hc : m = c
  case pos =>
    refine .inr ⟨fun d hd => absurd hc (a.ne hd), fun _ _ => ?_⟩
    rw [ancestors_addChild f hp, if_pos hc]
    exact List.mem_cons_of_mem c h
  case neg =>
    by_cases hm : m = p
    case neg => exact .inl (by rw [a.node?, if_neg hc, if_neg hm])
    case pos =>
      refine .inr ⟨fun _ _ => hm ▸ h, fun _ _ => ?_⟩
      rw [ancestors_addChild f hp, if_neg hc]
      exact hm ▸ h

theorem sameOutside_remove (h : t.contains n → r ∈ t.ancestors n ∧ n ≠ r) :
    SameOutside r t (t.remove n).2 := by
  have hb : ∀ {m}, n ∈ t.ancestors m → r ∈ t.ancestors m := fun hm =>
    f.ancestors_trans (h (f.contains_of_mem_ancestors hm)).1 hm
  refine sameOutside_of fun m => ?_
  by_cases hn : n ∈ t.ancestors m
  case pos =>
    have hg : (t.remove n).2.node? m = none := by rw [f.node?_remove, if_pos hn]
    exact .inr ⟨fun _ _ => hb hn, fun d hd => absurd (hg.symm.trans hd) (Option.some_ne_none d).symm⟩
  case neg =>
    cases hd : t.node? m
    case none => exact .inl (by rw [f.node?_remove, if_neg hn, hd, Option.map_none])
    case some d =>
      by_cases hc : n ∈ d.children
      case neg =>
        refine .inl ?_
        rw [f.node?_remove, if_neg hn, hd, Option.map_some, Node.without_of_not_mem hc]
      case pos =>
        have ha := f.ancestors_child hd hc
        obtain ⟨e, he, _⟩ := f.child hd hc
        obtain ⟨hr, hne⟩ := h (contains_iff.mpr ⟨e, he⟩)
        rw [ha] at hr
        have hr := (List.mem_cons.mp hr).resolve_left (Ne.symm hne)
        refine .inr ⟨fun _ _ => hr, fun _ _ => ?_⟩
        rwa [ancestors_remove f, if_neg hn]

theorem sameOutside_apply (op : Operation) (h : op.Below t r) : SameOutside r t (op.apply t) := by
  cases op
  case createRoot => exact absurd h id
  case addChild p =>
    simp only [Operation.apply]
    split
    case h_2 => exact fun _ _ => Iff.rfl
    case h_1 hp =>
      obtain ⟨e, a⟩ := f.freeList.added hp
      exact sameOutside_addChild f hp (h (contains_iff.mpr ⟨e, a.parent⟩))
  case declare n x =>
    simp only [Operation.apply]
    split
    case h_2 => exact fun _ _ => Iff.rfl
    case h_1 hx =>
      obtain ⟨_, _, _, _, rfl⟩ := declare_eq_ok_iff.mp hx
      exact sameOutside_modify (fun _ => rfl) h
  case setContext n id v =>
    simp only [Operation.apply, Tree.setContext]
    split
    case isTrue => exact fun _ _ => Iff.rfl
    case isFalse => split <;> exact sameOutside_modify (fun _ => rfl) h
  case setHandoff n v => exact sameOutside_modify (fun _ => rfl) h
  case remove n => exact sameOutside_remove f h

theorem outside_createRoot :
    (t.createRoot.2.node? m = some d ∧ t.createRoot.1 ∉ t.createRoot.2.ancestors m) ↔
      t.node? m = some d := by
  have hi : Inserted t {} t.createRoot.1 t.createRoot.2 := f.freeList.inserted {}
  rw [ancestors_createRoot f, hi.node?]
  by_cases hm : m = t.createRoot.1
  case pos => simp [hm, hi.new]
  case neg =>
    have hn : t.createRoot.1 ∉ t.ancestors m := fun h => by
      obtain ⟨_, hd⟩ := contains_iff.mp (f.contains_of_mem_ancestors h)
      exact hi.ne hd rfl
    simp [hm, hn]

theorem outside_remove (hr : t.IsRoot r) :
    (t.remove r).2.node? m = some d ↔ t.node? m = some d ∧ r ∉ t.ancestors m := by
  rw [f.node?_remove]
  by_cases hm : r ∈ t.ancestors m
  case pos => simp [hm]
  case neg =>
    rw [if_neg hm]
    cases hd : t.node? m
    case none => simp
    case some e => simp [hm, Node.without_of_not_mem (hr.not_mem_children f hd)]

end Operations

end BindingEngine.Tree
