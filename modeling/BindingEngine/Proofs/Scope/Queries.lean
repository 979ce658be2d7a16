import BindingEngine.Proofs.Scope.Locations
import BindingEngine.Proofs.Tree.Links

namespace BindingEngine

namespace Tree

variable {t : Tree} {n m p : NodeId} {id : String} {found : Option NodeId}

-- The first node that holds a context on the way from a node to its root, if there is one.
inductive Nearest (t : Tree) (id : String) : NodeId → Option NodeId → Prop
  | here {n : NodeId} : (t.context? n id).isSome → Nearest t id n (some n)
  | above {n p : NodeId} {found : Option NodeId} : t.context? n id = none → t.parent? n = some p →
    Nearest t id p found → Nearest t id n found
  | nowhere {n : NodeId} : t.context? n id = none → t.parent? n = none → Nearest t id n none

theorem Nearest.unique {found' : Option NodeId} (h : Nearest t id n found)
    (h' : Nearest t id n found') : found' = found := by
  induction h
  case here hc =>
    cases h'
    case here => rfl
    all_goals simp_all
  case above hc hp _ hi =>
    cases h'
    case above hp' h' => exact hi (Option.some.inj (hp.symm.trans hp') ▸ h')
    all_goals simp_all
  case nowhere hc hp =>
    cases h'
    case nowhere => rfl
    all_goals simp_all

variable (f : t.Forest)

include f

theorem Forest.nearest_find? (n : NodeId) :
    t.Nearest id n ((t.ancestors n).find? fun a => (t.context? a id).isSome) := by
  generalize hw : t.ancestors n = way
  induction way generalizing n
  case nil =>
    have hn : ¬t.contains n := fun hn => ancestors_ne_nil_iff.mpr hn hw
    refine .nowhere (Option.not_isSome_iff_eq_none.mp (mt contains_of_context? hn)) ?_
    rw [parent?_eq, hw]
    rfl
  case cons m way hi =>
    have hc : t.contains n := ancestors_ne_nil_iff.mp (hw ▸ List.cons_ne_nil m way)
    obtain rfl : m = n := by simpa [hw] using head?_ancestors hc
    by_cases hh : (t.context? m id).isSome
    case pos =>
      rw [List.find?_cons_of_pos (p := fun a => (t.context? a id).isSome) hh]
      exact .here hh
    case neg =>
      rw [List.find?_cons_of_neg (p := fun a => (t.context? a id).isSome) hh]
      have hp : t.parent? m = way.head? := by rw [parent?_eq, hw, List.tail_cons]
      cases way
      case nil => exact .nowhere (Option.not_isSome_iff_eq_none.mp hh) hp
      case cons p way =>
        have hs : t.ancestors p = p :: way := f.ancestors_of_suffix (List.suffix_cons m _) hw
        exact .above (Option.not_isSome_iff_eq_none.mp hh) hp (hi p hs)

theorem Forest.locate?_eq_iff (hid : id ≠ globalId) {location : Option Location} :
    t.locate? id n = location ↔ ∃ found, t.Nearest id n found ∧ location = found.map .node := by
  rw [locate?_of_ne hid]
  constructor
  case mp =>
    rintro rfl
    exact ⟨_, f.nearest_find? n, rfl⟩
  case mpr =>
    rintro ⟨found, h, rfl⟩
    rw [h.unique (f.nearest_find? n)]

end Tree

namespace Locations

variable {l : Locations} {t : Tree}

def answers (l : Locations) (t : Tree) : List NodeId → List (Option Location)
  | [] => []
  | n :: ns => (l.locate? t n).1 :: (l.locate? t n).2.answers t ns

theorem answers_eq (f : t.Forest) (h : l.Known t) (ns : List NodeId) :
    l.answers t ns = ns.map (t.locate? l.id) := by
  induction ns generalizing l
  case nil => rfl
  case cons n ns hi =>
    obtain ⟨ha, hid, hk⟩ := locate?_spec f h n
    rw [answers, ha, hi hk, hid, List.map_cons]

-- Whatever was done to a tree before and whichever nodes are asked for, there or not, each answer is the one
-- to the same query on its own. That is the nearest holder of the context on the way to the root, but for
-- the global context, which is found from everywhere.
theorem answers_nearest (ops : List Tree.Operation) (id : String) (ns : List NodeId) :
    answers { id } (Tree.run {} ops) ns = ns.map ((Tree.run {} ops).locate? id) ∧
    (id = globalId → ∀ n, (Tree.run {} ops).locate? id n = some .global) ∧
    (id ≠ globalId → ∀ n location, (Tree.run {} ops).locate? id n = location ↔
      ∃ found, (Tree.run {} ops).Nearest id n found ∧ location = found.map .node) := by
  have f : (Tree.run {} ops).Forest := Tree.Forest.empty.run ops
  refine ⟨answers_eq f (known_nil id _) ns, fun hid n => ?_, fun hid n location => ?_⟩
  case refine_1 => rw [hid, Tree.locate?_global]
  case refine_2 => exact f.locate?_eq_iff hid

def shadowed : List Tree.Operation :=
  [.createRoot, .addChild ⟨0, 0⟩, .addChild ⟨1, 0⟩, .addChild ⟨2, 0⟩, .addChild ⟨0, 0⟩,
    .addChild ⟨4, 0⟩, .declare ⟨1, 0⟩ ⟨"x", .int 1⟩, .declare ⟨2, 0⟩ ⟨"x", .int 2⟩, .remove ⟨5, 0⟩]

theorem shadowed_answers : "x" ≠ globalId ∧
    answers { id := "x" } (Tree.run {} shadowed)
        [⟨3, 0⟩, ⟨5, 0⟩, ⟨4, 0⟩, ⟨1, 0⟩, ⟨3, 0⟩, ⟨0, 0⟩, ⟨2, 0⟩, ⟨4, 0⟩] =
      [some (.node ⟨2, 0⟩), none, none, some (.node ⟨1, 0⟩), some (.node ⟨2, 0⟩), none,
        some (.node ⟨2, 0⟩), none] ∧
    (Tree.run {} shadowed).Nearest "x" ⟨3, 0⟩ (some ⟨2, 0⟩) ∧
    (Tree.run {} shadowed).Nearest "x" ⟨5, 0⟩ none := by
  have hid : "x" ≠ globalId := by decide
  obtain ⟨ha, -, hn⟩ := answers_nearest shadowed "x"
    [⟨3, 0⟩, ⟨5, 0⟩, ⟨4, 0⟩, ⟨1, 0⟩, ⟨3, 0⟩, ⟨0, 0⟩, ⟨2, 0⟩, ⟨4, 0⟩]
  refine ⟨hid, ha.trans (by decide), ?_, ?_⟩
  case refine_1 =>
    obtain ⟨found, h, he⟩ := (hn hid ⟨3, 0⟩ (some (.node ⟨2, 0⟩))).mp (by decide)
    cases found
    case none => cases he
    case some m => cases he; exact h
  case refine_2 =>
    obtain ⟨found, h, he⟩ := (hn hid ⟨5, 0⟩ none).mp (by decide)
    cases found
    case none => exact h
    case some => cases he

end Locations

end BindingEngine
