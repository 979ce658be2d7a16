import BindingEngine.Proofs.Subscription.TornDown
import BindingEngine.Proofs.Tree.Links

namespace BindingEngine

-- What was entered and not removed since, each subscription with its number, the oldest first. Whatever
-- is asked of it is found by going through all of it.
structure Ledger where
  next : Nat := 0
  entries : List (Nat × Subscription) := []

namespace Ledger

def select (k : Ledger) (p : Subscription → Bool) : List Nat :=
  (k.entries.filter fun entry => p entry.2).map Prod.fst

-- What is to be done about a change of the context `id` at `l`: those that are due remember what they
-- show from now on and are called with it.
def scan (k : Ledger) (t : Tree) (g : Value) (id : String) (l : Location) :
    Ledger × List (Nat × Value × Report) :=
  ({ k with entries := k.entries.map fun entry => (entry.1, entry.2.notified t g id l) },
    k.entries.filterMap fun entry =>
      if entry.2.Due t g id l then
        some (entry.1, entry.2.value t g, entry.2.observer.receive entry.2.node (entry.2.value t g))
      else none)

end Ledger

namespace Registry

variable {r : Registry} {s : Subscription} {t : Tree} {g : Value} {id : String} {l : Location}
variable {n : NodeId} {i : Nat} {p : Subscription → Bool}

def ledger (r : Registry) : Ledger := ⟨r.nextId, r.entries⟩

-- The lists of a registry are those that one finds by going through its entries, and none is kept that is
-- empty.
structure Listed (r : Registry) : Prop extends Indexed r where
  byContext (id : String) :
    listed r.byContext id = r.ledger.select fun s => id ∈ s.template.contextIds
  byNode (n : NodeId) : listed r.byNode n = r.ledger.select (·.node = n)
  byContext_ne_nil (id : String) : Table.get? r.byContext id ≠ some []
  byNode_ne_nil (n : NodeId) : Table.get? r.byNode n ≠ some []

section Lists

variable {α : Type} [DecidableEq α] {index : Table α (List Nat)} {key k : α} {keys : List α}

theorem enlist_ne_nil (h : Table.get? index k ≠ some []) : Table.get? (enlist index key i) k ≠ some [] := by
  rw [enlist, Table.get?_insert]
  split <;> simp [h]

theorem strike_ne_nil (h : Table.get? index k ≠ some []) : Table.get? (strike index key i) k ≠ some [] := by
  unfold strike
  split
  case h_1 => exact h
  case h_2 ids _ =>
    cases he : (ids.filter (· ≠ i)).isEmpty
    case true =>
      simp only [he, if_true, Table.get?_erase]
      split <;> simp [h]
    case false =>
      simp only [he, Bool.false_eq_true, if_false, Table.get?_insert]
      split
      case isTrue => simpa using he
      case isFalse => exact h

end Lists

section Select

theorem mem_select (hu : Table.Unique r.entries) :
    i ∈ r.ledger.select p ↔ ∃ s, r.subscription? i = some s ∧ p s := by
  simp only [ledger, Ledger.select, List.mem_map, List.mem_filter, Prod.exists, exists_and_right,
    exists_eq_right]
  refine exists_congr fun s => and_congr_left fun _ => ?_
  exact ⟨Table.get?_of_mem hu, Table.mem_of_get?⟩

theorem select_nodup (hu : Table.Unique r.entries) : (r.ledger.select p).Nodup :=
  (List.filter_sublist.map Prod.fst).nodup hu

theorem entries_insert (h : Indexed r) : (r.insert s).2.1.entries = r.entries ++ [(r.nextId, s)] := by
  refine Table.insert_of_not_mem ?_ s
  rw [Table.mem_keys_iff, Option.not_isSome_iff_eq_none]
  exact h.subscription?_nextId

theorem select_insert (h : Indexed r) : (r.insert s).2.1.ledger.select p =
    if p s then r.ledger.select p ++ [r.nextId] else r.ledger.select p := by
  simp only [ledger, Ledger.select, entries_insert h]
  cases hp : p s <;> simp [hp]

theorem entries_remove (r : Registry) (i : Nat) :
    (r.remove i).2.1.entries = r.entries.filter (·.1 ≠ i) := by
  unfold remove
  split
  case h_1 hn => exact (Table.erase_of_not_mem hn).symm
  case h_2 => rfl

theorem select_remove : (r.remove i).2.1.ledger.select p = (r.ledger.select p).filter (· ≠ i) := by
  simp only [ledger, Ledger.select, entries_remove, List.filter_map, List.filter_filter]
  refine congrArg _ (List.filter_congr fun entry _ => ?_)
  exact Bool.and_comm ..

end Select

namespace Listed

theorem empty : Listed {} where
  toIndexed := .empty
  byContext _ := rfl
  byNode _ := rfl
  byContext_ne_nil _ := by simp
  byNode_ne_nil _ := by simp

theorem insert (h : Listed r) (s : Subscription) : Listed (r.insert s).2.1 where
  toIndexed := h.toIndexed.insert s
  byContext id := by
    have hl : listed (r.insert s).2.1.byContext id = _ :=
      listed_foldl_enlist s.template.contextIds_nodup
    simp only [hl, select_insert h.toIndexed, h.byContext, decide_eq_true_eq]
  byNode n := by
    have hl : listed (r.insert s).2.1.byNode n = _ := listed_enlist
    simp only [hl, select_insert h.toIndexed, h.byNode, decide_eq_true_eq, eq_comm (a := n)]
  byContext_ne_nil id := List.foldlRecOn (motive := fun index => Table.get? index id ≠ some []) _ _
    (h.byContext_ne_nil id) fun _ hi _ _ => enlist_ne_nil hi
  byNode_ne_nil n := enlist_ne_nil (h.byNode_ne_nil n)

theorem remove (h : Listed r) (i : Nat) : Listed (r.remove i).2.1 := by
  cases hs : r.subscription? i
  case none =>
    have hs : Table.get? r.entries i = none := hs
    simpa only [Registry.remove, hs] using h
  case some s =>
    have hs' : Table.get? r.entries i = some s := hs
    -- a list that does not have the number stays as it is
    have hn {ids : List Nat} (hi : i ∉ ids) : ids.filter (· ≠ i) = ids :=
      List.filter_eq_self.mpr fun j hj => decide_eq_true fun he => hi (he ▸ hj)
    constructor
    case toIndexed => exact h.toIndexed.remove i
    case byContext =>
      intro id
      have hl : listed (r.remove i).2.1.byContext id =
          if id ∈ s.template.contextIds then (listed r.byContext id).filter (· ≠ i)
          else listed r.byContext id := by
        simp only [Registry.remove, hs']
        exact listed_foldl_strike
      rw [hl, select_remove, ← h.byContext]
      split
      case isTrue => rfl
      case isFalse hid => exact (hn fun hi => hid (by simpa [h.mem_byContext, hs] using hi)).symm
    case byNode =>
      intro n
      have hl : listed (r.remove i).2.1.byNode n =
          if n = s.node then (listed r.byNode n).filter (· ≠ i) else listed r.byNode n := by
        simp only [Registry.remove, hs']
        exact listed_strike
      rw [hl, select_remove, ← h.byNode]
      split
      case isTrue => rfl
      case isFalse hm =>
        exact (hn fun hi => hm (by simpa [h.mem_byNode, hs, eq_comm] using hi)).symm
    case byContext_ne_nil =>
      intro id
      simp only [Registry.remove, hs']
      exact List.foldlRecOn (motive := fun index => Table.get? index id ≠ some []) _ _
        (h.byContext_ne_nil id) fun _ hi _ _ => strike_ne_nil hi
    case byNode_ne_nil =>
      intro n
      simp only [Registry.remove, hs']
      exact strike_ne_nil (h.byNode_ne_nil n)

theorem foldl_remove (h : Listed r) (ids : List Nat) :
    Listed (ids.foldl (fun r i => (r.remove i).2.1) r) := by
  induction ids generalizing r
  case nil => exact h
  case cons i ids hi => exact hi (h.remove i)

theorem removeNode (h : Listed r) (n : NodeId) : Listed (r.removeNode n).2.1 :=
  removeNode_registry ▸ h.foldl_remove _

end Listed

section Notification

theorem notify_registry (f : t.Forest) (h : Indexed r) :
    (r.notify t g id l).2.1 = { r with entries := (r.ledger.scan t g id l).1.entries } := by
  have hk : Table.keys (r.entries.map fun entry => (entry.1, entry.2.notified t g id l)) =
      Table.keys r.entries := by simp [Table.keys]
  have he : (r.notify t g id l).2.1.entries = (r.ledger.scan t g id l).1.entries := by
    refine Table.ext_of_keys ((congrArg List.Nodup hk).mpr h.unique) ?_ fun i => ?_
    case refine_1 => exact (notify_asked f h id).keys.trans hk.symm
    case refine_2 => exact (subscription?_notify f h).trans (Table.get?_map ..).symm
  exact congrArg (fun entries => { r with entries }) he

theorem Listed.notify (f : t.Forest) (h : Listed r) (g : Value) (id : String) (l : Location) :
    Listed (r.notify t g id l).2.1 where
  toIndexed := h.toIndexed.notify f g id l
  byContext id' := by
    rw [notify_registry f h.toIndexed]
    refine (h.byContext id').trans ?_
    simp [ledger, Ledger.select, Ledger.scan, List.filter_map, Function.comp_def]
  byNode n := by
    rw [notify_registry f h.toIndexed]
    refine (h.byNode n).trans ?_
    simp [ledger, Ledger.select, Ledger.scan, List.filter_map, Function.comp_def]
  byContext_ne_nil := h.byContext_ne_nil
  byNode_ne_nil := h.byNode_ne_nil

end Notification

section Node

end Node

inductive Operation
  | insert (s : Subscription)
  | remove (i : Nat)
  | removeNode (n : NodeId)
  -- A change made known while the tree is the one that the operations `changes` build.
  | notify (changes : List Tree.Operation) (g : Value) (id : String) (l : Location)

def apply (r : Registry) : Operation → Registry
  | .insert s => (r.insert s).2.1
  | .remove i => (r.remove i).2.1
  | .removeNode n => (r.removeNode n).2.1
  | .notify changes g id l => (r.notify (Tree.run {} changes) g id l).2.1

def run (r : Registry) (ops : List Operation) : Registry :=
  ops.foldl apply r

-- What is returned for an operation: a number for what was entered, whether there was something to be
-- removed, how much was removed, or how many were called and with what.
inductive Answer
  | entered (i : Nat)
  | removed (found : Bool)
  | removedNode (number : Nat)
  | notified (number : Nat) (calls : List (Nat × Value × Report))

def answer (r : Registry) : Operation → Answer
  | .insert s => .entered (r.insert s).1
  | .remove i => .removed (r.remove i).1
  | .removeNode n => .removedNode (r.removeNode n).1
  | .notify changes g id l =>
    let told := r.notify (Tree.run {} changes) g id l
    .notified told.1 (Report.calls told.2.2)

end Registry

namespace Ledger

open Registry (Operation Answer)

def apply (k : Ledger) : Operation → Ledger
  | .insert s => ⟨k.next + 1, k.entries ++ [(k.next, s)]⟩
  | .remove i => { k with entries := k.entries.filter (·.1 ≠ i) }
  | .removeNode n => { k with entries := k.entries.filter (·.2.node ≠ n) }
  | .notify changes g id l => (k.scan (Tree.run {} changes) g id l).1

def run (k : Ledger) (ops : List Operation) : Ledger :=
  ops.foldl apply k

def answer (k : Ledger) : Operation → Answer
  | .insert _ => .entered k.next
  | .remove i => .removed (k.entries.any (·.1 = i))
  | .removeNode n => .removedNode (k.select (·.node = n)).length
  | .notify changes g id l =>
    let calls := (k.scan (Tree.run {} changes) g id l).2
    .notified calls.length calls

end Ledger

namespace Registry

variable {r : Registry}

theorem Listed.apply (h : Listed r) : (op : Operation) → Listed (r.apply op)
  | .insert s => h.insert s
  | .remove i => h.remove i
  | .removeNode n => h.removeNode n
  | .notify changes g id l => h.notify (Tree.Forest.empty.run changes) g id l

theorem Listed.run (h : Listed r) (ops : List Operation) : Listed (r.run ops) := by
  induction ops generalizing r
  case nil => exact h
  case cons op ops hi => exact hi (h.apply op)

-- The numbers that a registry gives are those that one gets by counting its entries.
structure Counted (r : Registry) : Prop where
  nodup (p : Subscription → Bool) : (r.ledger.select p).Nodup
  mem (p : Subscription → Bool) (i : Nat) :
    i ∈ r.ledger.select p ↔ ∃ s, r.subscription? i = some s ∧ p s
  size : r.size = r.ledger.entries.length
  count (n : NodeId) : r.count n = (r.ledger.select (·.node = n)).length

theorem Listed.counted (h : Listed r) : Counted r where
  nodup _ := select_nodup h.unique
  mem _ _ := mem_select h.unique
  size := rfl
  count n := congrArg List.length (h.byNode n)

end Registry

end BindingEngine
