import BindingEngine.Proofs.Scope.Locations
import BindingEngine.Proofs.Subscription.Index

namespace BindingEngine

def Report.calls : List Report → List (Nat × Value × Report)
  | .updating i v :: r :: rest => (i, v, r) :: calls rest
  | _ :: rest => calls rest
  | [] => []

def Report.isUpdating : Report → Bool
  | .updating _ _ => true
  | _ => false

def Report.isSilent (r : Report) : Bool :=
  r.received?.isNone && !r.isUpdating

theorem Report.calls_append {quiet : List Report} (h : ∀ r ∈ quiet, ¬r.isUpdating)
    (rest : List Report) : calls (quiet ++ rest) = calls rest := by
  induction quiet
  case nil => rfl
  case cons r quiet hi =>
    have hi := hi fun r hr => h r (List.mem_cons_of_mem _ hr)
    have hr := h r List.mem_cons_self
    cases r
    case updating => simp [isUpdating] at hr
    all_goals simpa [calls] using hi

namespace Subscription

variable (s : Subscription) (t : Tree) (g : Value) (id : String) (l : Location) (i : Nat)

def value : Value :=
  s.template.evaluate (Scope.mk t g s.node []).resolve

-- The context `id` that the subscription sees is the one at `l`, and there is something new to hear.
def Outdated : Prop :=
  t.locate? id s.node = some l ∧ ¬(s.value t g).equals s.last

instance : Decidable (s.Outdated t g id l) :=
  inferInstanceAs (Decidable (_ ∧ _))

def asked : Subscription :=
  if s.Outdated t g id l then { s with last := s.value t g } else s

def call? : Option (Nat × Value × Report) :=
  if s.Outdated t g id l then some (i, s.value t g, s.observer.receive s.node (s.value t g)) else none

def answer : List Report :=
  if t.locate? id s.node = some l then
    (s.template.misses (Scope.mk t g s.node []).resolve).map .unresolved ++
      ((s.call? t g id l i).toList.flatMap fun call => [.updating i call.2.1, call.2.2])
  else []

-- The template reads the context that changed, and the subscription is outdated.
def Due : Prop :=
  id ∈ s.template.contextIds ∧ s.Outdated t g id l

instance : Decidable (s.Due t g id l) :=
  inferInstanceAs (Decidable (_ ∧ _))

def notified : Subscription :=
  if s.Due t g id l then { s with last := s.value t g } else s

variable {s t g id l i}

theorem notified_of_mem (h : id ∈ s.template.contextIds) :
    s.notified t g id l = s.asked t g id l := by
  simp [notified, asked, Due, h]

theorem notified_of_not_mem (h : id ∉ s.template.contextIds) : s.notified t g id l = s := by
  simp [notified, Due, h]

@[simp]
theorem notified_node : (s.notified t g id l).node = s.node := by
  unfold notified
  split <;> rfl

@[simp]
theorem notified_template : (s.notified t g id l).template = s.template := by
  unfold notified
  split <;> rfl

theorem fst_of_call? {c : Nat × Value × Report} (h : s.call? t g id l i = some c) : c.1 = i := by
  unfold call? at h
  split at h
  case isTrue => exact (Option.some.inj h) ▸ rfl
  case isFalse => contradiction

theorem asked_eq (h : s.Outdated t g id l) : s.asked t g id l = { s with last := s.value t g } :=
  if_pos h

theorem asked_of_not (h : ¬s.Outdated t g id l) : s.asked t g id l = s :=
  if_neg h

theorem calls_answer (rest : List Report) :
    Report.calls (s.answer t g id l i ++ rest) = (s.call? t g id l i).toList ++ Report.calls rest := by
  unfold answer
  split
  case isFalse h => simp [call?, Outdated, h]
  case isTrue h =>
    rw [List.append_assoc, Report.calls_append (by simp [Report.isUpdating])]
    unfold call?
    split
    case isTrue => rfl
    case isFalse => rfl

end Subscription

namespace Registry

variable {t : Tree} {g : Value} {l : Location} {u u' : Update} {i j : Nat} {r : Registry} {id : String}

-- How asking the subscriptions `ids` one after the other changes what has been done so far.
structure Update.Asked (t : Tree) (g : Value) (l : Location) (ids : List Nat) (u u' : Update) :
    Prop where
  name : u'.locations.id = u.locations.id
  known : u'.locations.Known t
  keys : Table.keys u'.entries = Table.keys u.entries
  entries (j : Nat) : Table.get? u'.entries j =
    if j ∈ ids then (Table.get? u.entries j).map (·.asked t g u.locations.id l)
    else Table.get? u.entries j
  reports : u'.reports = u.reports ++ ids.flatMap fun i =>
    ((Table.get? u.entries i).map fun s => s.answer t g u.locations.id l i).getD []
  delivered : u'.delivered = u.delivered + (ids.filterMap fun i =>
    (Table.get? u.entries i).bind fun s => s.call? t g u.locations.id l i).length

theorem Update.Asked.single {s : Subscription} (hs : Table.get? u.entries i = some s)
    (hn : u'.locations.id = u.locations.id) (hk : u'.locations.Known t)
    (he : u'.entries = if s.Outdated t g u.locations.id l then
      Table.insert u.entries i { s with last := s.value t g } else u.entries)
    (hr : u'.reports = u.reports ++ s.answer t g u.locations.id l i)
    (hd : u'.delivered = u.delivered + (s.call? t g u.locations.id l i).toList.length) :
    Asked t g l [i] u u' := by
  have hm : i ∈ Table.keys u.entries := by simp [Table.mem_keys_iff, hs]
  constructor
  case name => exact hn
  case known => exact hk
  case keys =>
    rw [he]
    split
    case isTrue => exact Table.keys_insert_of_mem hm _
    case isFalse => rfl
  case entries =>
    intro j
    rw [he]
    split
    case isTrue ho =>
      rw [Table.get?_insert]
      by_cases hj : j = i <;> simp [hj, hs, Subscription.asked_eq ho]
    case isFalse ho => by_cases hj : j = i <;> simp [hj, hs, Subscription.asked_of_not ho]
  case reports => simp [hr, hs]
  case delivered => cases hc : s.call? t g u.locations.id l i <;> simp [hd, hs, hc]

theorem Update.step_asked (f : t.Forest) (h : u.locations.Known t) (i : Nat) :
    Asked t g l [i] u (u.step t g l i) := by
  have hl := fun n => (Locations.locate?_spec f h n).1
  have hid := fun n => (Locations.locate?_spec f h n).2.1
  have hk := fun n => (Locations.locate?_spec f h n).2.2
  unfold step
  split
  case h_1 hs =>
    refine ⟨rfl, h, rfl, fun j => ?_, by simp [hs], by simp [hs]⟩
    by_cases hj : j = i <;> simp [hj, hs]
  case h_2 s hs =>
    simp only [hl s.node]
    split
    -- 1. the subscription sees another context, or none
    case isTrue hn =>
      have hn : t.locate? u.locations.id s.node ≠ some l := hn
      have ho : ¬s.Outdated t g u.locations.id l := fun ho => hn ho.1
      refine .single hs (hid _) (hk _) (if_neg ho).symm ?_ ?_
      case refine_1 => simp [Subscription.answer, hn]
      case refine_2 => simp [Subscription.call?, ho]
    case isFalse hn =>
      have hn : t.locate? u.locations.id s.node = some l := Decidable.not_not.mp hn
      split
      -- 2. it sees the context, but there is nothing new to hear
      case isTrue he =>
        have ho : ¬s.Outdated t g u.locations.id l := fun ho => ho.2 he
        refine .single hs (hid _) (hk _) (if_neg ho).symm ?_ ?_
        case refine_1 => simp [Subscription.answer, hn, Subscription.call?, ho]
        case refine_2 => simp [Subscription.call?, ho]
      -- 3. it sees the context and has something new to hear
      case isFalse he =>
        have ho : s.Outdated t g u.locations.id l := ⟨hn, he⟩
        refine .single hs (hid _) (hk _) (if_pos ho).symm ?_ ?_
        case refine_1 => simp [Subscription.answer, hn, Subscription.call?, ho, Subscription.value]
        case refine_2 => simp [Subscription.call?, ho]

theorem Update.Asked.cons {ids : List Nat} {v : Update} (h : Asked t g l [i] u v)
    (h' : Asked t g l ids v u') (hi : i ∉ ids) : Asked t g l (i :: ids) u u' := by
  -- a subscription is asked once, so those that are left are as they were in the beginning
  have hv : ∀ j ∈ ids, Table.get? v.entries j = Table.get? u.entries j := fun j hj => by
    have hj : j ≠ i := fun he => hi (he ▸ hj)
    simp [h.entries, hj]
  constructor
  case name => exact h'.name.trans h.name
  case known => exact h'.known
  case keys => exact h'.keys.trans h.keys
  case entries =>
    intro j
    rw [h'.entries, h.entries, h.name]
    by_cases hj : j = i
    case pos => simp [hj, hi]
    case neg => simp [hj]
  case reports =>
    rw [h'.reports, h.reports, h.name, List.append_assoc]
    have hr := List.flatMap_congr fun j hj => congrArg (fun s : Option Subscription =>
      (s.map fun s => s.answer t g u.locations.id l j).getD []) (hv j hj)
    simp [hr]
  case delivered =>
    rw [h'.delivered, h.delivered, h.name]
    have hd := List.filterMap_congr fun j hj => congrArg (fun s : Option Subscription =>
      s.bind fun s => s.call? t g u.locations.id l j) (hv j hj)
    rw [hd, ← List.singleton_append (l := ids), List.filterMap_append, List.length_append]
    exact Nat.add_assoc ..

theorem Update.foldl_asked (f : t.Forest) (h : u.locations.Known t) {ids : List Nat}
    (hd : ids.Nodup) : Asked t g l ids u (ids.foldl (step t g l) u) := by
  induction ids generalizing u
  case nil => exact ⟨rfl, h, rfl, fun j => by simp, by simp, by simp⟩
  case cons i ids hi =>
    obtain ⟨hm, hd⟩ := List.nodup_cons.mp hd
    have hs := step_asked f h i (g := g) (l := l)
    exact hs.cons (hi hs.known hd) hm

theorem filter_filterMap {β : Type} {ids : List Nat} {f : Nat → Option (Nat × β)} (hd : ids.Nodup)
    (h : ∀ {j c}, f j = some c → c.1 = j) :
    (ids.filterMap f).filter (·.1 = i) = if i ∈ ids then (f i).toList else [] := by
  induction ids
  case nil => rfl
  case cons j ids hi =>
    obtain ⟨hm, hd⟩ := List.nodup_cons.mp hd
    have hi := hi hd
    cases hf : f j
    case none =>
      rw [List.filterMap_cons_none hf, hi]
      by_cases hj : i = j <;> simp [hj, hm, hf]
    case some c =>
      have hc : c.1 = j := h hf
      rw [List.filterMap_cons_some hf, List.filter_cons, hc, hi]
      by_cases hj : i = j
      case pos => simp [hj, hm, hf]
      case neg => simp [hj, Ne.symm hj]

theorem notify_asked (f : t.Forest) (h : r.Indexed) (id : String) :
    Update.Asked t g l (listed r.byContext id) ⟨r.entries, { id }, [], 0⟩
      ((listed r.byContext id).foldl (Update.step t g l) ⟨r.entries, { id }, [], 0⟩) :=
  Update.foldl_asked f (Locations.known_nil id t) (h.byContext_nodup id)

theorem subscription?_notify (f : t.Forest) (h : r.Indexed) :
    (r.notify t g id l).2.1.subscription? i = (r.subscription? i).map (·.notified t g id l) := by
  have he : (r.notify t g id l).2.1.subscription? i = _ := (notify_asked f h id).entries i
  rw [he]
  cases hs : r.subscription? i
  case none =>
    have hs : Table.get? r.entries i = none := hs
    simp [hs]
  case some s =>
    have hm : i ∈ listed r.byContext id ↔ id ∈ s.template.contextIds := by simp [h.mem_byContext, hs]
    have hs : Table.get? r.entries i = some s := hs
    by_cases hid : id ∈ s.template.contextIds
    case pos => simp [hs, hm, hid, Subscription.notified_of_mem]
    case neg => simp [hs, hm, hid, Subscription.notified_of_not_mem]

theorem Narrows.notify (f : t.Forest) (h : r.Indexed) (g : Value) (id : String) (l : Location) :
    Narrows r (r.notify t g id l).2.1 :=
  ⟨rfl, fun hn => by rw [subscription?_notify f h, hn, Option.map_none]⟩

theorem Indexed.notify (f : t.Forest) (h : r.Indexed) (g : Value) (id : String) (l : Location) :
    Indexed (r.notify t g id l).2.1 := by
  refine h.map ?_ rfl rfl rfl (fun _ => subscription?_notify f h) fun s => ?_
  case refine_1 =>
    have hk : Table.keys (r.notify t g id l).2.1.entries = _ := (notify_asked f h id).keys
    exact (congrArg List.Nodup hk).mpr h.unique
  case refine_2 => exact ⟨Subscription.notified_node, Subscription.notified_template⟩

theorem reports_notify (f : t.Forest) (h : r.Indexed) :
    (r.notify t g id l).2.2 = (listed r.byContext id).flatMap fun i =>
      ((r.subscription? i).map fun s => s.answer t g id l i).getD [] :=
  (notify_asked f h id).reports.trans (List.nil_append _)

theorem calls_notify (f : t.Forest) (h : r.Indexed) :
    Report.calls (r.notify t g id l).2.2 = (listed r.byContext id).filterMap fun i =>
      (r.subscription? i).bind fun s => s.call? t g id l i := by
  rw [reports_notify f h]
  generalize listed r.byContext id = ids
  induction ids
  case nil => rfl
  case cons i ids hi =>
    rw [List.flatMap_cons]
    cases hs : r.subscription? i
    case none => simpa [hs] using hi
    case some s =>
      simp only [Option.map_some, Option.getD_some, Subscription.calls_answer, hi]
      cases hc : s.call? t g id l i <;> simp [hs, hc]

theorem calls_notify_of {s : Subscription} (f : t.Forest) (h : r.Indexed)
    (hs : r.subscription? i = some s) :
    (Report.calls (r.notify t g id l).2.2).filter (·.1 = i) =
      if s.Due t g id l then [(i, s.value t g, s.observer.receive s.node (s.value t g))] else [] := by
  have hc : ∀ {j c}, ((r.subscription? j).bind fun s => s.call? t g id l j) = some c → c.1 = j := by
    intro j c hc
    obtain ⟨s, _, hc⟩ := Option.bind_eq_some_iff.mp hc
    exact Subscription.fst_of_call? hc
  have hm : i ∈ listed r.byContext id ↔ id ∈ s.template.contextIds := by simp [h.mem_byContext, hs]
  rw [calls_notify f h, filter_filterMap (h.byContext_nodup id) hc]
  by_cases hid : id ∈ s.template.contextIds
  case neg => simp [hm, hid, Subscription.Due]
  case pos => by_cases ho : s.Outdated t g id l <;>
    simp [hm, hid, hs, ho, Subscription.Due, Subscription.call?]

end Registry

end BindingEngine
