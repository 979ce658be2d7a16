import BindingEngine.Document.Record

namespace BindingEngine

section

variable {ε ε' α β : Type} {x : Except ε α} {a : α} {b : β}

theorem bind_eq_ok_iff {f : α → Except ε β} :
    (x >>= f) = .ok b ↔ ∃ a, x = .ok a ∧ f a = .ok b := by
  cases x <;> simp [bind, Except.bind]

theorem map_eq_ok_iff {f : α → β} : f <$> x = .ok b ↔ ∃ a, x = .ok a ∧ f a = b := by
  cases x <;> simp [Functor.map, Except.map]

theorem mapError_eq_ok_iff {f : ε → ε'} : x.mapError f = .ok a ↔ x = .ok a := by
  cases x
  case error e =>
    change Except.error (f e) = .ok a ↔ _
    simp
  case ok b =>
    change Except.ok b = .ok a ↔ _
    simp

theorem Decoded.ofOption_eq_ok_iff {o : Option α} : Decoded.ofOption o = .ok a ↔ o = some a := by
  cases o <;> simp [Decoded.ofOption]

theorem mapM_eq_some_iff {f : α → Option β} {g : β → α} (h : ∀ a b, f a = some b ↔ a = g b)
    {as : List α} {bs : List β} : as.mapM f = some bs ↔ as = bs.map g := by
  induction as generalizing bs
  case nil => cases bs <;> simp
  case cons a as hi => cases bs <;> simp [Option.bind_eq_some_iff, h, hi]

variable {as : List α} {bs : List β}

theorem mapM_map_eq_ok {f : β → Except ε α} {g : α → β} (h : ∀ a ∈ as, f (g a) = .ok a) :
    (as.map g).mapM f = .ok as := by
  induction as
  case nil => rfl
  case cons a as hi =>
    obtain ⟨ha, has⟩ := List.forall_mem_cons.mp h
    rw [List.map_cons, List.mapM_cons, ha, hi has]
    rfl

theorem exists_of_mapM_eq_ok {f : α → Except ε β} (h : as.mapM f = .ok bs) :
    ∀ b ∈ bs, ∃ a ∈ as, f a = .ok b := by
  induction as generalizing bs
  case nil =>
    obtain rfl := Except.ok.inj h
    simp
  case cons a as hi =>
    rw [List.mapM_cons, bind_eq_ok_iff] at h
    obtain ⟨b, hb, h⟩ := h
    obtain ⟨bs, hbs, he⟩ := bind_eq_ok_iff.mp h
    obtain rfl := Except.ok.inj he
    refine List.forall_mem_cons.mpr ⟨⟨a, List.mem_cons_self, hb⟩, fun c hc => ?_⟩
    obtain ⟨a', ha, hc⟩ := hi hbs c hc
    exact ⟨a', List.mem_cons_of_mem _ ha, hc⟩

end

namespace Decoded

variable {α : Type} {decode : Value → Decoded α} {v : Value} {a : α}

theorem optional_of_ne_null (hn : v ≠ .null) : optional decode v = some <$> decode v := by
  cases v
  case null => contradiction
  all_goals rfl

theorem optional_eq_some_iff : optional decode v = .ok (some a) ↔ v ≠ .null ∧ decode v = .ok a := by
  by_cases hn : v = .null
  case pos => simp [hn, optional]
  case neg => simp [optional_of_ne_null hn, map_eq_ok_iff, hn]

-- An optional part is taken again from what it is written as, which is not null.
def Keeps (decode : Value → Decoded α) (write : α → Value) (x : Option α) : Prop :=
  ∀ a ∈ x, write a ≠ .null ∧ decode (write a) = .ok a

theorem keeps_none {write : α → Value} : Keeps decode write none :=
  fun _ ha => nomatch ha

end Decoded

namespace Record

variable {α β : Type} {names required : List String} {start a b : α} {name : String}
variable {step : α → String → Value → Decoded α} {fields : List (Option (String × Value))}
variable {decode : Value → Decoded β} {write : β → Value}

-- Reads one of the fields that a record is written with, and passes over those that are absent.
def enter (step : α → String → Value → Decoded α) (a : α) : Option (String × Value) → Decoded α
  | none => .ok a
  | some (name, v) => step a name v

theorem foldlM_written : (fields.filterMap id).foldlM (fun a entry => step a entry.1 entry.2) a =
    fields.foldlM (enter step) a := by
  induction fields generalizing a
  case nil => rfl
  case cons field fields hi =>
    cases field
    case none => exact hi
    case some entry =>
      refine bind_congr fun b => ?_
      exact hi

theorem read_map (entries : List (String × Value)) :
    read names required start step (.map entries) = (do
      let a ← entries.foldlM (fun a entry => step a entry.1 entry.2) start
      if required.any (!Table.contains entries ·) then .error .shape else .ok a) := by
  simp only [read, fields?, Bool.false_or]

theorem read_written (h : fields.foldlM (enter step) start = .ok a)
    (hr : ∀ name ∈ required, Table.contains (fields.filterMap id) name) :
    read names required start step (written fields) = .ok a := by
  have hf : (fields.filterMap id).foldlM (fun a entry => step a entry.1 entry.2) start = .ok a :=
    foldlM_written.trans h
  have hm : ¬required.any (!Table.contains (fields.filterMap id) ·) := by
    simpa using hr
  rw [written, read_map, hf]
  exact if_neg hm

theorem foldlM_enter_cons {field : Option (String × Value)} {c : α} (h : enter step a field = .ok b)
    (hr : fields.foldlM (enter step) b = .ok c) : (field :: fields).foldlM (enter step) a = .ok c := by
  rw [List.foldlM_cons, h]
  exact hr

theorem enter_field {x : β} {f : β → α} (hs : ∀ v, step a name v = (decode v).map f)
    (hx : decode (write x) = .ok x) : enter step a (field name (write x)) = .ok (f x) := by
  rw [field, enter, hs, hx]
  rfl

theorem enter_unless {absent : Prop} [Decidable absent] {x : β} {f : β → α}
    (hs : ∀ v, step a name v = (decode v).map f) (hn : absent → f x = a)
    (hx : decode (write x) = .ok x) :
    enter step a (if absent then none else field name (write x)) = .ok (f x) := by
  split
  case isTrue h => exact congrArg Except.ok (hn h).symm
  case isFalse => exact enter_field hs hx

theorem enter_optionalField {x : Option β} {f : Option β → α}
    (hs : ∀ v, step a name v = (Decoded.optional decode v).map f) (hn : f none = a)
    (hx : Decoded.Keeps decode write x) :
    enter step a (optionalField name write x) = .ok (f x) := by
  cases x
  case none => exact congrArg Except.ok hn.symm
  case some y =>
    have ho : Decoded.optional decode (write y) = .ok (some y) :=
      Decoded.optional_eq_some_iff.mpr (hx y rfl)
    rw [optionalField, Option.map_some, enter, hs, ho]
    rfl

theorem forall_mem_optionalField {p : String × Value → Prop} {x : Option β} :
    (∀ entry ∈ optionalField name write x, p entry) ↔ ∀ y ∈ x, p (name, write y) := by
  cases x <;> simp [optionalField]

theorem erase_written {key : String} (h : ∀ f ∈ fields, ∀ entry ∈ f, entry.1 ≠ key) :
    Table.erase (fields.filterMap id) key = fields.filterMap id := by
  refine List.filter_eq_self.mpr fun entry he => decide_eq_true ?_
  obtain ⟨f, hf, he⟩ := List.mem_filterMap.mp he
  exact h f hf entry he

end Record

end BindingEngine
