import BindingEngine.Proofs.Tree.Subtree

namespace BindingEngine.Tree

variable {t t' : Tree} {n m c p : NodeId} {d e : Node}

def SameLinks (t t' : Tree) : Prop :=
  ∀ m, (t'.node? m).map (fun d => (d.lineage, d.children)) =
    (t.node? m).map (fun d => (d.lineage, d.children))

namespace SameLinks

theorem some_iff {l cs : List NodeId} (h : SameLinks t t') :
    (∃ d, t'.node? m = some d ∧ d.lineage = l ∧ d.children = cs) ↔
      ∃ d, t.node? m = some d ∧ d.lineage = l ∧ d.children = cs := by
  have h := h m
  cases h₁ : t.node? m <;> cases h₂ : t'.node? m <;> simp_all

theorem forest (h : SameLinks t t') (f : t.Forest) (hf : FreeList t')
    (hd : ∀ {n d x}, t'.node? n = some d → d.context = some x → ¬isReserved x.id) : t'.Forest where
  freeList := hf
  parent hn hl := by
    obtain ⟨d, hd, hdl, _⟩ := h.some_iff.mp ⟨_, hn, hl, rfl⟩
    obtain ⟨e, he, hel, hm⟩ := f.parent hd hdl
    obtain ⟨e', he', hel', hc⟩ := h.some_iff.mpr ⟨e, he, hel, rfl⟩
    exact ⟨e', he', hel', hc ▸ hm⟩
  child hp hc := by
    obtain ⟨e, he, hel, hec⟩ := h.some_iff.mp ⟨_, hp, rfl, rfl⟩
    obtain ⟨d, hd, hdl⟩ := f.child he (hec ▸ hc)
    obtain ⟨d', hd', hdl', _⟩ := h.some_iff.mpr ⟨d, hd, hdl, rfl⟩
    exact ⟨d', hd', hel ▸ hdl'⟩
  children_nodup hp := by
    obtain ⟨e, he, _, hc⟩ := h.some_iff.mp ⟨_, hp, rfl, rfl⟩
    exact hc ▸ f.children_nodup he
  declared := hd

end SameLinks

theorem sameLinks_modify {f : Node → Node} (hl : ∀ d, (f d).lineage = d.lineage)
    (hc : ∀ d, (f d).children = d.children) : SameLinks t (t.modify n f) := by
  intro m
  rw [node?_modify]
  split
  case isFalse => rfl
  case isTrue h =>
    subst h
    cases t.node? m <;> simp [hl, hc]

namespace Inserted

variable (h : Inserted t d c t')

include h

theorem ne (hm : t.node? m = some e) : m ≠ c := fun hc => by
  have := hc ▸ h.new
  simp [hm] at this

theorem kept (hm : t.node? m = some e) : t'.node? m = some e := by
  rw [h.node?, if_neg (h.ne hm), hm]

theorem cases (hm : t'.node? m = some e) : (m = c ∧ e = d) ∨ t.node? m = some e := by
  rw [h.node?] at hm
  split at hm
  case isTrue hc => exact .inl ⟨hc, (Option.some.inj hm).symm⟩
  case isFalse => exact .inr hm

end Inserted

structure Added (t : Tree) (p : NodeId) (e : Node) (c : NodeId) (t' : Tree) : Prop where
  freeList : FreeList t'
  parent : t.node? p = some e
  new : t.node? c = none
  node? (m : NodeId) : t'.node? m =
    if m = c then some { lineage := p :: e.lineage }
    else if m = p then some { e with children := e.children ++ [c] }
    else t.node? m

theorem FreeList.added (f : FreeList t) (h : t.addChild p = .ok (c, t')) : ∃ e, Added t p e c t' := by
  unfold addChild at h
  split at h
  case h_1 => contradiction
  case h_2 e he =>
    have hi := f.inserted { lineage := p :: e.lineage }
    have hf := f.insert { lineage := p :: e.lineage }
    simp only [Except.ok.injEq, Prod.mk.injEq] at h
    obtain ⟨rfl, rfl⟩ := h
    refine ⟨e, hf.modify _ _, he, hi.new, fun m => ?_⟩
    rw [node?_modify, hi.node?, hi.node?, if_neg (hi.ne he), he]
    by_cases hm : m = p
    case pos => simp [hm, hi.ne he]
    case neg => simp [hm]

namespace Added

variable (a : Added t p e c t')

include a

theorem ne (hm : t.node? m = some d) : m ≠ c := fun hc => by
  have := hc ▸ a.new
  simp [hm] at this

theorem node?_new : t'.node? c = some { lineage := p :: e.lineage } := by
  rw [a.node?, if_pos rfl]

theorem node?_parent : t'.node? p = some { e with children := e.children ++ [c] } := by
  rw [a.node?, if_neg (a.ne a.parent), if_pos rfl]

theorem kept (hm : t.node? m = some d) :
    ∃ d', t'.node? m = some d' ∧ d'.lineage = d.lineage ∧ d.children ⊆ d'.children := by
  by_cases h : m = p
  case pos =>
    subst h
    obtain rfl : e = d := Option.some.inj (a.parent.symm.trans hm)
    exact ⟨_, a.node?_parent, rfl, List.subset_append_left _ _⟩
  case neg => exact ⟨d, by rw [a.node?, if_neg (a.ne hm), if_neg h, hm], rfl, List.Subset.refl _⟩

theorem cases (hm : t'.node? m = some d) :
    (m = c ∧ d = { lineage := p :: e.lineage }) ∨
    ∃ d₀, t.node? m = some d₀ ∧ d.lineage = d₀.lineage ∧
      ∀ {b}, b ∈ d.children → b ∈ d₀.children ∨ (b = c ∧ m = p) := by
  rw [a.node?] at hm
  split at hm
  case isTrue h => exact .inl ⟨h, (Option.some.inj hm).symm⟩
  case isFalse =>
    right
    split at hm
    case isFalse => exact ⟨d, hm, rfl, .inl⟩
    case isTrue h =>
      subst h
      rw [← Option.some.inj hm]
      refine ⟨e, a.parent, rfl, fun hb => ?_⟩
      exact (List.mem_append.mp hb).imp_right fun hb => ⟨List.mem_singleton.mp hb, rfl⟩

end Added

namespace Forest

theorem modify (f : t.Forest) {g : Node → Node} (hl : ∀ d, (g d).lineage = d.lineage)
    (hc : ∀ d, (g d).children = d.children)
    (hd : ∀ {d x}, t.node? n = some d → (g d).context = some x → ¬isReserved x.id) :
    (t.modify n g).Forest := by
  refine (sameLinks_modify hl hc).forest f (f.freeList.modify n g) fun {m d x} hm hx => ?_
  rw [node?_modify] at hm
  split at hm
  case isFalse => exact f.declared hm hx
  case isTrue h =>
    obtain ⟨d', hd', he⟩ := Option.map_eq_some_iff.mp hm
    exact hd hd' (he ▸ hx)

theorem createRoot (f : t.Forest) : t.createRoot.2.Forest := by
  have hi : Inserted t {} t.createRoot.1 t.createRoot.2 := f.freeList.inserted {}
  constructor
  case freeList => exact f.freeList.insert {}
  case parent =>
    intro n d p l hd hl
    cases hi.cases hd
    case inl h => simp [h.2] at hl
    case inr hd =>
      obtain ⟨e, he, h⟩ := f.parent hd hl
      exact ⟨e, hi.kept he, h⟩
  case child =>
    intro p e c he hc
    cases hi.cases he
    case inl h => simp [h.2] at hc
    case inr he =>
      obtain ⟨d, hd, h⟩ := f.child he hc
      exact ⟨d, hi.kept hd, h⟩
  case children_nodup =>
    intro p e he
    cases hi.cases he
    case inl h => simp [h.2]
    case inr he => exact f.children_nodup he
  case declared =>
    intro n d x hd hx
    cases hi.cases hd
    case inl h => simp [h.2] at hx
    case inr hd => exact f.declared hd hx

theorem addChild (f : t.Forest) (h : t.addChild p = .ok (c, t')) : t'.Forest := by
  obtain ⟨e, a⟩ := f.freeList.added h
  constructor
  case freeList => exact a.freeList
  case parent =>
    intro n d q l hd hl
    -- the new node has `p` for a parent, every other one the parent that it had
    rcases a.cases hd with ⟨hn, hd₀⟩ | ⟨d₀, hd₀, hl₀, _⟩
    case inl =>
      obtain ⟨rfl, rfl⟩ : p = q ∧ e.lineage = l := by simpa [hd₀] using hl
      exact ⟨_, a.node?_parent, rfl, by simp [hn]⟩
    case inr =>
      obtain ⟨e₀, he₀, hel, hm⟩ := f.parent hd₀ (hl₀ ▸ hl)
      obtain ⟨e', he', hl', hs⟩ := a.kept he₀
      exact ⟨e', he', hl'.trans hel, hs hm⟩
  case child =>
    intro q g b hq hb
    rcases a.cases hq with ⟨_, hg⟩ | ⟨g₀, hg₀, hl, hs⟩
    case inl => simp [hg] at hb
    case inr =>
      cases hs hb
      case inl hb =>
        obtain ⟨d, hd, hdl⟩ := f.child hg₀ hb
        obtain ⟨d', hd', hl', _⟩ := a.kept hd
        exact ⟨d', hd', by rw [hl', hdl, hl]⟩
      case inr hb =>
        obtain ⟨rfl, rfl⟩ := hb
        have he : g₀ = e := Option.some.inj (hg₀.symm.trans a.parent)
        exact ⟨_, a.node?_new, by simp [hl, he]⟩
  case children_nodup =>
    intro q g hq
    rw [a.node?] at hq
    split at hq
    case isTrue => simp [← Option.some.inj hq]
    case isFalse =>
      split at hq
      case isFalse => exact f.children_nodup hq
      case isTrue =>
        -- a child is live, and the name of the new node was not in use
        have hm : c ∉ e.children := by
          intro hm
          obtain ⟨_, hd, _⟩ := f.child a.parent hm
          exact a.ne hd rfl
        rw [← Option.some.inj hq]
        refine List.nodup_append.mpr ⟨f.children_nodup a.parent, by simp, fun x hx y hy hxy => hm ?_⟩
        rw [List.mem_singleton] at hy
        exact hy ▸ hxy ▸ hx
  case declared =>
    intro n d x hd hx
    rw [a.node?] at hd
    split at hd
    case isTrue => simp [← Option.some.inj hd] at hx
    case isFalse =>
      split at hd
      case isFalse => exact f.declared hd hx
      case isTrue =>
        rw [← Option.some.inj hd] at hx
        exact f.declared a.parent hx

theorem remove (f : t.Forest) (n : NodeId) : (t.remove n).2.Forest := by
  -- what is left was there before, not below `n`, and with `n` among its children
  have ho : ∀ {m d}, (t.remove n).2.node? m = some d →
      ∃ d₀, t.node? m = some d₀ ∧ d = d₀.without n ∧ n ∉ t.ancestors m := by
    intro m d hm
    rw [f.node?_remove] at hm
    split at hm
    case isTrue => contradiction
    case isFalse h =>
      obtain ⟨d₀, hd₀, hd⟩ := Option.map_eq_some_iff.mp hm
      exact ⟨d₀, hd₀, hd.symm, h⟩
  have hk : ∀ {m d}, t.node? m = some d → n ∉ t.ancestors m →
      (t.remove n).2.node? m = some (d.without n) := fun hm h => by
    rw [f.node?_remove, if_neg h, hm, Option.map_some]
  constructor
  case freeList =>
    have hf : FreeList (t.unlink n) := by
      unfold unlink
      split
      case h_1 => exact f.freeList.modify _ _
      case h_2 => exact f.freeList
    exact hf.foldl_release (f.subtree_nodup n) fun m hm =>
      (f.contains_unlink m).trans (f.contains_of_mem_subtree hm)
  case parent =>
    intro m d p l hd hl
    obtain ⟨d₀, hd₀, rfl, hn⟩ := ho hd
    obtain ⟨e, he, hel, hm⟩ := f.parent hd₀ hl
    have ha := f.ancestors_child he hm
    refine ⟨e.without n, hk he fun hp => hn (ha ▸ List.mem_cons_of_mem m hp), hel, ?_⟩
    -- only `n` itself is struck off the list of its parent, and it is not left
    refine List.mem_filter.mpr ⟨hm, decide_eq_true fun hmn => hn ?_⟩
    exact ha ▸ hmn ▸ List.mem_cons_self
  case child =>
    intro p e c he hc
    obtain ⟨e₀, he₀, rfl, hn⟩ := ho he
    obtain ⟨hc, hcn⟩ := List.mem_filter.mp hc
    obtain ⟨d, hd, hl⟩ := f.child he₀ hc
    refine ⟨d.without n, hk hd ?_, hl⟩
    rw [f.ancestors_child he₀ hc, List.mem_cons]
    exact fun h => h.elim (fun h => of_decide_eq_true hcn h.symm) hn
  case children_nodup =>
    intro p e he
    obtain ⟨e₀, he₀, rfl, _⟩ := ho he
    exact (f.children_nodup he₀).filter _
  case declared =>
    intro m d x hd hx
    obtain ⟨d₀, hd₀, rfl, _⟩ := ho hd
    exact f.declared hd₀ hx

end Forest

theorem declare_eq_ok_iff {x : Context} :
    t.declare n x = .ok t' ↔ ¬isReserved x.id ∧ ∃ d, t.node? n = some d ∧ d.context = none ∧
      t' = t.modify n fun d => { d with context := some x } := by
  unfold declare
  split
  case isTrue h => simp [h]
  case isFalse h =>
    cases hn : t.node? n
    case none => simp
    case some d => cases hd : d.context <;> simp [h, hd, eq_comm]

namespace Forest

theorem declare {x : Context} (f : t.Forest) (h : t.declare n x = .ok t') : t'.Forest := by
  obtain ⟨hr, _, _, _, ht⟩ := declare_eq_ok_iff.mp h
  subst ht
  refine f.modify (fun _ => rfl) (fun _ => rfl) fun _ hx => ?_
  exact Option.some.inj hx ▸ hr

theorem setHandoff (f : t.Forest) (n : NodeId) (v : Value) : (t.setHandoff n v).Forest :=
  f.modify (fun _ => rfl) (fun _ => rfl) f.declared

theorem setContext (f : t.Forest) (n : NodeId) (id : String) (v : Value) :
    (t.setContext n id v).Forest := by
  unfold Tree.setContext
  split
  case isTrue => exact f
  case isFalse h =>
    split
    case isTrue => exact f.setHandoff n v
    case isFalse hid =>
      refine f.modify (fun _ => rfl) (fun _ => rfl) fun {d x} hd hx => ?_
      -- the name is that of the context that was declared
      obtain ⟨c, hc, hcid⟩ : ∃ c, d.context = some c ∧ c.id = id := by
        cases hc : d.context <;> simp [context?, hd, hid, hc] at h
        case some c => exact ⟨c, rfl, h⟩
      have hr := f.declared hd hc
      rwa [hcid, show id = x.id from congrArg Context.id (Option.some.inj hx)] at hr

end Forest

-- What can be done to a tree. An operation that fails leaves it as it is.
inductive Operation
  | createRoot
  | addChild (p : NodeId)
  | declare (n : NodeId) (x : Context)
  | setContext (n : NodeId) (id : String) (v : Value)
  | setHandoff (n : NodeId) (v : Value)
  | remove (n : NodeId)

namespace Operation

def apply (t : Tree) : Operation → Tree
  | createRoot => t.createRoot.2
  | addChild p => match t.addChild p with
    | .ok (_, t') => t'
    | .error _ => t
  | declare n x => match t.declare n x with
    | .ok t' => t'
    | .error _ => t
  | setContext n id v => t.setContext n id v
  | setHandoff n v => t.setHandoff n v
  | remove n => (t.remove n).2

theorem forest (f : t.Forest) : (op : Operation) → (op.apply t).Forest
  | createRoot => f.createRoot
  | addChild p => by
    simp only [apply]
    split
    case h_1 h => exact f.addChild h
    case h_2 => exact f
  | declare n x => by
    simp only [apply]
    split
    case h_1 h => exact f.declare h
    case h_2 => exact f
  | setContext n id v => f.setContext n id v
  | setHandoff n v => f.setHandoff n v
  | remove n => f.remove n

theorem contains_apply (f : t.Forest) (h : t.contains n) :
    (op : Operation) → (∀ p, op = remove p → p ∉ t.ancestors n) → (op.apply t).contains n
  | createRoot, _ => by
    obtain ⟨d, hd⟩ := contains_iff.mp h
    exact contains_iff.mpr ⟨d, (f.freeList.inserted {}).kept hd⟩
  | addChild p, _ => by
    simp only [apply]
    split
    case h_2 => exact h
    case h_1 hp =>
      obtain ⟨d, hd⟩ := contains_iff.mp h
      obtain ⟨e, a⟩ := f.freeList.added hp
      obtain ⟨d', hd', _⟩ := a.kept hd
      exact contains_iff.mpr ⟨d', hd'⟩
  | declare m x, _ => by
    simp only [apply]
    split
    case h_2 => exact h
    case h_1 hx =>
      obtain ⟨_, _, _, _, rfl⟩ := declare_eq_ok_iff.mp hx
      rwa [contains_modify]
  | setContext m id v, _ => by
    simp only [apply, Tree.setContext]
    split
    case isTrue => exact h
    case isFalse => split <;> exact contains_modify.trans h
  | setHandoff m v, _ => contains_modify.trans h
  | remove p, hr => by
    obtain ⟨d, hd⟩ := contains_iff.mp h
    exact contains_iff.mpr ⟨d.without p, by simp [apply, f.node?_remove, hr p rfl, hd]⟩

end Operation

end BindingEngine.Tree
