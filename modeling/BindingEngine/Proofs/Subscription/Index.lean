import BindingEngine.Subscription.Registry
import BindingEngine.Proofs.Expr.Reads
import BindingEngine.Proofs.Table

namespace BindingEngine.Registry

section Lists

variable {α : Type} [DecidableEq α] {index : Table α (List Nat)} {key k : α} {keys : List α} {i : Nat}

def listed (index : Table α (List Nat)) (key : α) : List Nat :=
  (Table.get? index key).getD []

theorem nodup_append_single {l : List Nat} (hl : l.Nodup) (hi : i ∉ l) : (l ++ [i]).Nodup := by
  simpa [List.nodup_append, hl] using fun j hj (he : j = i) => hi (he ▸ hj)

theorem listed_enlist : listed (enlist index key i) k =
    if k = key then listed index k ++ [i] else listed index k := by
  simp only [listed, enlist, Table.get?_insert]
  split
  case isTrue h => simp [h]
  case isFalse => rfl

theorem listed_strike : listed (strike index key i) k =
    if k = key then (listed index k).filter (· ≠ i) else listed index k := by
  unfold strike
  split
  case h_1 hn => by_cases h : k = key <;> simp [h, listed, hn]
  case h_2 ids hs =>
    cases he : (ids.filter (· ≠ i)).isEmpty
    case false =>
      simp only [listed, he, Table.get?_insert, Bool.false_eq_true, if_false]
      split
      case isTrue h => simp [h, hs]
      case isFalse => rfl
    case true =>
      simp only [listed, he, Table.get?_erase, if_true]
      split
      case isTrue h => simpa [h, hs] using he
      case isFalse => rfl

theorem listed_foldl_enlist (hd : keys.Nodup) :
    listed (keys.foldl (fun index key => enlist index key i) index) k =
      if k ∈ keys then listed index k ++ [i] else listed index k := by
  induction keys generalizing index
  case nil => simp
  case cons key keys hi =>
    obtain ⟨hm, hd⟩ := List.nodup_cons.mp hd
    rw [List.foldl_cons, hi hd, listed_enlist]
    by_cases h : k = key
    case pos => simp [h, hm]
    case neg => simp [h]

theorem listed_foldl_strike :
    listed (keys.foldl (fun index key => strike index key i) index) k =
      if k ∈ keys then (listed index k).filter (· ≠ i) else listed index k := by
  induction keys generalizing index
  case nil => simp
  case cons key keys hi =>
    rw [List.foldl_cons, hi, listed_strike]
    by_cases h : k = key
    case pos => simp [h, List.filter_filter]
    case neg => simp [h]

end Lists

def subscription? (r : Registry) (i : Nat) : Option Subscription := Table.get? r.entries i

-- The lists of a registry are in step with its entries: a subscription is listed once under its node
-- and once under every context that its template reads, and nothing else is listed.
structure Indexed (r : Registry) : Prop where
  unique : Table.Unique r.entries
  lt_nextId {i s} : r.subscription? i = some s → i < r.nextId
  mem_byContext {id i} :
    i ∈ listed r.byContext id ↔ ∃ s, r.subscription? i = some s ∧ id ∈ s.template.contextIds
  byContext_nodup (id) : (listed r.byContext id).Nodup
  mem_byNode {n i} : i ∈ listed r.byNode n ↔ ∃ s, r.subscription? i = some s ∧ s.node = n
  byNode_nodup (n) : (listed r.byNode n).Nodup

variable {r : Registry} {s : Subscription} {n : NodeId} {i j : Nat}

theorem subscription?_insert : (r.insert s).2.1.subscription? j =
    if j = r.nextId then some s else r.subscription? j :=
  Table.get?_insert ..

theorem subscription?_remove : (r.remove i).2.1.subscription? j =
    if j = i then none else r.subscription? j := by
  unfold remove
  split
  case h_2 => exact Table.get?_erase ..
  case h_1 hn =>
    split
    case isTrue h => exact h ▸ hn
    case isFalse => rfl

namespace Indexed

theorem empty : Indexed {} where
  unique := .nil
  lt_nextId h := by simp [subscription?] at h
  mem_byContext := by simp [listed, subscription?]
  byContext_nodup _ := .nil
  mem_byNode := by simp [listed, subscription?]
  byNode_nodup _ := .nil

theorem subscription?_nextId (h : Indexed r) : r.subscription? r.nextId = none := by
  cases hs : r.subscription? r.nextId
  case none => rfl
  case some s => exact absurd (h.lt_nextId hs) (Nat.lt_irrefl _)

theorem insert (h : Indexed r) (s : Subscription) : Indexed (r.insert s).2.1 := by
  have hn : ∀ {i s'}, r.subscription? i = some s' → i ≠ r.nextId := fun hs =>
    Nat.ne_of_lt (h.lt_nextId hs)
  -- the new number is on no list yet
  have hc : ∀ id, r.nextId ∉ listed r.byContext id := by
    intro id hm
    obtain ⟨_, hs, _⟩ := h.mem_byContext.mp hm
    exact hn hs rfl
  have hb : ∀ n, r.nextId ∉ listed r.byNode n := by
    intro n hm
    obtain ⟨_, hs, _⟩ := h.mem_byNode.mp hm
    exact hn hs rfl
  have hcl : ∀ id, listed (r.insert s).2.1.byContext id =
      if id ∈ s.template.contextIds then listed r.byContext id ++ [r.nextId]
      else listed r.byContext id := fun id => listed_foldl_enlist s.template.contextIds_nodup
  have hbl : ∀ n, listed (r.insert s).2.1.byNode n =
      if n = s.node then listed r.byNode n ++ [r.nextId] else listed r.byNode n :=
    fun n => listed_enlist
  constructor
  case unique => exact Table.unique_insert h.unique _ _
  case lt_nextId =>
    intro i s' hs
    rw [subscription?_insert] at hs
    split at hs
    case isTrue hi => exact hi ▸ Nat.lt_succ_self _
    case isFalse => exact Nat.lt_succ_of_lt (h.lt_nextId hs)
  case mem_byContext =>
    intro id i
    rw [hcl, subscription?_insert]
    by_cases hi : i = r.nextId
    case pos =>
      -- the new number is listed where it was entered, and nowhere else
      have := hc id
      by_cases hm : id ∈ s.template.contextIds <;> simp_all
    case neg =>
      have : i ∈ listed r.byContext id ++ [r.nextId] ↔ i ∈ listed r.byContext id := by simp [hi]
      split <;> simp [hi, h.mem_byContext]
  case byContext_nodup =>
    intro id
    rw [hcl]
    split
    case isFalse => exact h.byContext_nodup id
    case isTrue => exact nodup_append_single (h.byContext_nodup id) (hc id)
  case mem_byNode =>
    intro n i
    rw [hbl, subscription?_insert]
    by_cases hi : i = r.nextId
    case pos =>
      have := hb n
      by_cases hm : n = s.node <;> simp_all [eq_comm]
    case neg => split <;> simp [hi, h.mem_byNode]
  case byNode_nodup =>
    intro n
    rw [hbl]
    split
    case isFalse => exact h.byNode_nodup n
    case isTrue => exact nodup_append_single (h.byNode_nodup n) (hb n)

theorem remove (h : Indexed r) (i : Nat) : Indexed (r.remove i).2.1 := by
  cases hs : r.subscription? i
  case none =>
    have hs : Table.get? r.entries i = none := hs
    simpa [Registry.remove, hs] using h
  case some s =>
    have hs' : Table.get? r.entries i = some s := hs
    have hcl : ∀ id, listed (r.remove i).2.1.byContext id =
        if id ∈ s.template.contextIds then (listed r.byContext id).filter (· ≠ i)
        else listed r.byContext id := fun id => by
      simp only [Registry.remove, hs']
      exact listed_foldl_strike
    have hbl : ∀ n, listed (r.remove i).2.1.byNode n =
        if n = s.node then (listed r.byNode n).filter (· ≠ i) else listed r.byNode n := fun n => by
      simp only [Registry.remove, hs']
      exact listed_strike
    constructor
    case unique =>
      simp only [Registry.remove, hs']
      exact Table.unique_erase h.unique i
    case lt_nextId =>
      intro j s' hj
      rw [subscription?_remove] at hj
      split at hj
      case isTrue => contradiction
      case isFalse => simpa [Registry.remove, hs'] using h.lt_nextId hj
    case mem_byContext =>
      intro id j
      rw [hcl, subscription?_remove]
      by_cases hj : j = i
      -- every other number stays where it is listed
      case neg => split <;> simp [hj, h.mem_byContext]
      case pos => by_cases hm : id ∈ s.template.contextIds <;> simp [hj, hm, h.mem_byContext, hs]
    case byContext_nodup =>
      intro id
      rw [hcl]
      split
      case isTrue => exact (h.byContext_nodup id).filter _
      case isFalse => exact h.byContext_nodup id
    case mem_byNode =>
      intro n j
      rw [hbl, subscription?_remove]
      by_cases hj : j = i
      case neg => split <;> simp [hj, h.mem_byNode]
      case pos =>
        have hm : i ∈ listed r.byNode n ↔ n = s.node := by simp [h.mem_byNode, hs, eq_comm]
        split <;> simp_all
    case byNode_nodup =>
      intro n
      rw [hbl]
      split
      case isTrue => exact (h.byNode_nodup n).filter _
      case isFalse => exact h.byNode_nodup n

theorem foldl_remove (h : Indexed r) (ids : List Nat) :
    Indexed (ids.foldl (fun r i => (r.remove i).2.1) r) := by
  induction ids generalizing r
  case nil => exact h
  case cons i ids hi => exact hi (h.remove i)

theorem map {r' : Registry} {f : Subscription → Subscription} (h : Indexed r)
    (hu : Table.Unique r'.entries) (hn : r'.nextId = r.nextId)
    (hc : r'.byContext = r.byContext) (hb : r'.byNode = r.byNode)
    (hs : ∀ i, r'.subscription? i = (r.subscription? i).map f)
    (hf : ∀ s, (f s).node = s.node ∧ (f s).template = s.template) : Indexed r' := by
  constructor
  case unique => exact hu
  case lt_nextId =>
    intro i s' hi
    rw [hs] at hi
    obtain ⟨_, hi, _⟩ := Option.map_eq_some_iff.mp hi
    exact hn ▸ h.lt_nextId hi
  case mem_byContext =>
    intro id i
    cases hi : r.subscription? i <;> simp [hc, h.mem_byContext, hs, hi, hf]
  case byContext_nodup => exact fun id => hc ▸ h.byContext_nodup id
  case mem_byNode =>
    intro n i
    cases hi : r.subscription? i <;> simp [hb, h.mem_byNode, hs, hi, hf]
  case byNode_nodup => exact fun n => hb ▸ h.byNode_nodup n

end Indexed

section Node

theorem subscription?_foldl_remove {ids : List Nat} :
    (ids.foldl (fun r i => (r.remove i).2.1) r).subscription? j =
      if j ∈ ids then none else r.subscription? j := by
  induction ids generalizing r
  case nil => simp
  case cons i ids hi =>
    rw [List.foldl_cons, hi, subscription?_remove]
    by_cases h : j = i <;> simp [h]

theorem removeNode_registry : (r.removeNode n).2.1 =
    (listed r.byNode n).foldl (fun r i => (r.remove i).2.1) r :=
  (List.foldl_hom (fun done : Nat × Registry × List Report => done.2.1) fun _ _ => rfl).symm

theorem Indexed.removeNode (h : Indexed r) (n : NodeId) : Indexed (r.removeNode n).2.1 :=
  removeNode_registry ▸ h.foldl_remove _

theorem subscription?_removeNode (h : Indexed r) : (r.removeNode n).2.1.subscription? j =
    (r.subscription? j).filter (·.node ≠ n) := by
  rw [removeNode_registry, subscription?_foldl_remove]
  -- the numbers on the list of the node are those of its subscriptions
  cases hs : r.subscription? j
  case none => simp
  case some s => by_cases hn : s.node = n <;> simp [h.mem_byNode, hs, hn, Option.filter]

theorem Indexed.foldl_removeNode (h : Indexed r) (ns : List NodeId) :
    Indexed (ns.foldl (fun r m => (r.removeNode m).2.1) r) := by
  induction ns generalizing r
  case nil => exact h
  case cons n ns hi => exact hi (h.removeNode n)

theorem subscription?_foldl_removeNode (h : Indexed r) {ns : List NodeId} :
    (ns.foldl (fun r m => (r.removeNode m).2.1) r).subscription? j =
      (r.subscription? j).filter (·.node ∉ ns) := by
  induction ns generalizing r
  case nil => cases h : r.subscription? j <;> simp [h, Option.filter]
  case cons n ns hi =>
    rw [List.foldl_cons, hi (h.removeNode n), subscription?_removeNode h]
    cases r.subscription? j
    case none => rfl
    case some s => by_cases hn : s.node = n <;> simp [Option.filter, hn]

end Node

-- Nothing is entered on the way from `r` to `r'`.
structure Narrows (r r' : Registry) : Prop where
  nextId : r'.nextId = r.nextId
  none {i : Nat} : r.subscription? i = none → r'.subscription? i = none

namespace Narrows

theorem refl (r : Registry) : Narrows r r :=
  ⟨rfl, id⟩

theorem trans {r' r'' : Registry} (h : Narrows r r') (h' : Narrows r' r'') : Narrows r r'' :=
  ⟨h'.nextId.trans h.nextId, fun hn => h'.none (h.none hn)⟩

theorem remove (r : Registry) (i : Nat) : Narrows r (r.remove i).2.1 where
  nextId := by
    unfold Registry.remove
    split <;> rfl
  none hn := by rw [subscription?_remove, hn, ite_self]

theorem removeNode (r : Registry) (n : NodeId) : Narrows r (r.removeNode n).2.1 := by
  rw [removeNode_registry]
  generalize listed r.byNode n = ids
  induction ids generalizing r
  case nil => exact .refl r
  case cons i ids hi => exact (Narrows.remove r i).trans (hi _)

theorem foldl_removeNode (r : Registry) (ns : List NodeId) :
    Narrows r (ns.foldl (fun r m => (r.removeNode m).2.1) r) := by
  induction ns generalizing r
  case nil => exact .refl r
  case cons n ns hi => exact (Narrows.removeNode r n).trans (hi _)

end Narrows

-- A number that was given away and is free again, which is never given away anew.
def Gone (r : Registry) (i : Nat) : Prop :=
  i < r.nextId ∧ r.subscription? i = none

theorem Gone.insert (h : Gone r i) (s : Subscription) : Gone (r.insert s).2.1 i :=
  ⟨Nat.lt_succ_of_lt h.1, by rw [subscription?_insert, if_neg (Nat.ne_of_lt h.1), h.2]⟩

end BindingEngine.Registry
