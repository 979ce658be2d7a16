import BindingEngine.Proofs.Tree.History
import BindingEngine.Proofs.Tree.Links

namespace BindingEngine.Tree

variable {t : Tree} {n m p : NodeId} {d : Node} {op : Operation} {ops : List Operation}

def Operation.named? (t : Tree) : Operation → Option NodeId
  | createRoot => some t.createRoot.1
  | addChild p => match t.addChild p with
    | .ok (c, _) => some c
    | .error _ => none
  | _ => none

def named (t : Tree) : List Operation → List NodeId
  | [] => []
  | op :: ops => (op.named? t).toList ++ (op.apply t).named ops

-- A name is used when it is that of a node, or was once.
def Used (t : Tree) (n : NodeId) : Prop :=
  t.contains n ∨ t.Spent n

section Names

variable (f : t.Forest)

include f

theorem Used.apply (h : Used t n) (op : Operation) : Used (op.apply t) n := by
  cases h
  case inr h => exact .inr (h.apply op)
  case inl h =>
    refine (kept_or_spent f h op).imp_left fun ha => ancestors_ne_nil_iff.mp ?_
    exact ha ▸ ancestors_ne_nil_iff.mpr h

omit f in
theorem FreeList.not_used_insert (h : FreeList t) (d : Node) : ¬Used t (t.insert d).1 := by
  have hn : t.node? (t.insert d).1 = none := (h.inserted d).new
  rintro (hc | ⟨slot, hs, hg⟩)
  case inl => simp [contains, hn] at hc
  case inr =>
    unfold Tree.insert at hs hg
    split at hs
    case h_2 => simp at hs
    case h_1 index free hf =>
      obtain ⟨generation, hi, he⟩ := h.slot_eq_of_free hf
      have hslot : slot = ⟨generation, none⟩ := by simpa [hi, he, eq_comm] using hs
      have hg : generation + 1 < generation ∨ generation + 1 = generation ∧ slot.node = none := by
        rw [hslot] at hg ⊢
        simpa only [hf, Array.getElem?_eq_getElem hi, he] using hg
      omega

theorem Operation.contains_of_named? (h : op.named? t = some n) :
    ¬Used t n ∧ (op.apply t).contains n := by
  cases op
  case createRoot =>
    obtain rfl : (t.insert {}).1 = n := Option.some.inj h
    have hi := (f.freeList.inserted {}).node? (t.insert {}).1
    exact ⟨f.freeList.not_used_insert {}, contains_iff.mpr ⟨{}, hi.trans (if_pos rfl)⟩⟩
  case addChild p =>
    simp only [named?] at h
    split at h
    case h_2 => contradiction
    case h_1 c t' ha =>
      obtain rfl : c = n := Option.some.inj h
      obtain ⟨e, a⟩ := f.freeList.added ha
      refine ⟨?_, contains_iff.mpr ⟨_, by rw [Operation.apply, ha]; exact a.node?_new⟩⟩
      simp only [Tree.addChild, a.parent, Except.ok.injEq, Prod.mk.injEq] at ha
      exact ha.1 ▸ f.freeList.not_used_insert _
  all_goals contradiction

theorem named_spec (ops : List Operation) :
    (t.named ops).Nodup ∧ ∀ n ∈ t.named ops, ¬Used t n := by
  induction ops generalizing t
  case nil => exact ⟨.nil, by simp [named]⟩
  case cons op ops hi =>
    obtain ⟨hd, hu⟩ := hi (op.forest f)
    have hu : ∀ n ∈ (op.apply t).named ops, ¬Used t n := fun n hn h => hu n hn (h.apply f op)
    cases hop : op.named? t
    case none => simpa [named, hop] using ⟨hd, hu⟩
    case some n =>
      obtain ⟨hn, hc⟩ := op.contains_of_named? f hop
      have hm : n ∉ (op.apply t).named ops := fun h => (hi (op.forest f)).2 n h (.inl hc)
      simpa [named, hop, hn, hm, hd] using hu

end Names

structure Unknown (t : Tree) (n : NodeId) : Prop where
  contains : t.contains n = false
  parent? : t.parent? n = none
  children : t.children n = []
  ancestors : t.ancestors n = []
  subtree : t.subtree n = []
  context? (id : String) : t.context? n id = none
  addChild : t.addChild n = .error (.missingNode n)
  declare (x : Context) : ∃ error, t.declare n x = .error error
  setContext (id : String) (v : Value) : t.setContext n id v = t
  setHandoff (v : Value) : t.setHandoff n v = t
  remove : t.remove n = ([], t)

theorem unknown_of_not_contains (h : ¬t.contains n) : Unknown t n := by
  have hn : t.node? n = none := by simpa [contains] using h
  have hc (id : String) : t.context? n id = none := by simp [context?, hn]
  have hs : t.subtree n = [] := if_neg h
  constructor
  case contains => simpa using h
  case parent? => simp [parent?, hn]
  case children => simp [children, hn]
  case ancestors => simp [ancestors, hn]
  case subtree => exact hs
  case context? => exact hc
  case addChild => simp [addChild, hn]
  case declare =>
    intro x
    unfold declare
    split
    case isTrue => exact ⟨_, rfl⟩
    case isFalse => exact ⟨_, by rw [hn]⟩
  case setContext => exact fun id v => if_pos (by rw [hc]; rfl)
  case setHandoff => exact fun v => by simp [setHandoff, modify, hn]
  case remove => simp [remove, hs, parent?, hn]

theorem Spent.run (h : Spent t n) (ops : List Operation) : Spent (t.run ops) n := by
  induction ops generalizing t
  case nil => exact h
  case cons op ops hi => exact hi (h.apply op)

-- All names that are ever given are different. Once a node is removed its name stands for nothing, and no
-- node that comes later is given it.
theorem named_once (ops : List Operation) :
    (named {} ops).Nodup ∧
    ∀ before n after, ops = before ++ .remove n :: after →
      ∀ m ∈ ((run {} before).remove n).1, (run {} ops).Unknown m ∧
        m ∉ named ((run {} before).remove n).2 after := by
  refine ⟨(named_spec .empty ops).1, fun before n after ho m hm => ?_⟩
  have f : (run {} before).Forest := Forest.empty.run before
  have hs : Spent ((run {} before).remove n).2 m := f.spent_remove hm
  refine ⟨unknown_of_not_contains ?_, fun h => (named_spec (f.remove n) after).2 m h (.inr hs)⟩
  rw [ho, run, List.foldl_append, List.foldl_cons]
  exact (hs.run after).not_contains

-- A node is removed with the one below it. The slots of both are used again, under other names.
def recycling : List Operation :=
  [.createRoot, .addChild ⟨0, 0⟩, .remove ⟨0, 0⟩, .createRoot, .addChild ⟨0, 1⟩]

theorem named_recycling :
    named {} recycling = [⟨0, 0⟩, ⟨1, 0⟩, ⟨0, 1⟩, ⟨1, 1⟩] ∧
      (run {} recycling).Unknown ⟨0, 0⟩ ∧ (run {} recycling).Unknown ⟨1, 0⟩ := by
  have h := (named_once recycling).2 [.createRoot, .addChild ⟨0, 0⟩] ⟨0, 0⟩
    [.createRoot, .addChild ⟨0, 1⟩] rfl
  exact ⟨rfl, (h ⟨0, 0⟩ (by decide)).1, (h ⟨1, 0⟩ (by decide)).1⟩

end BindingEngine.Tree
