import BindingEngine.Proofs.Expr.Reads
import BindingEngine.Proofs.Template.Opening
import Mathlib.Data.Set.List

namespace BindingEngine

section Fault

variable {ε α β : Type} {x : Except ε α} {e : ε}

def fault? : Except ε α → Option ε
  | .error e => some e
  | .ok _    => none

theorem fault?_eq_some_iff : fault? x = some e ↔ x = .error e := by
  cases x <;> simp [fault?]

theorem fault?_map (f : α → β) (x : Except ε α) : fault? (f <$> x) = fault? x := by
  cases x <;> rfl

theorem fault?_bind_map (x : Except ε α) (y : Except ε β) {γ : Type} (f : α → β → γ) :
    fault? (x >>= fun a => y >>= fun b => pure (f a b)) = (fault? x).or (fault? y) := by
  cases x <;> cases y <;> rfl

end Fault

namespace Template

-- What a text is worth as a template, and what it reads then.
def valueOf (resolve : Resolver) (raw : String) : Value :=
  match parse raw with
  | .ok t    => t.evaluate resolve
  | .error _ => .null

def readsOf (raw : String) : List String :=
  match parse raw with
  | .ok t    => t.contextIds
  | .error _ => []

variable {resolve : Resolver} {raw : String}

theorem valueOf_of_not_containsBinding (h : containsBinding raw = false) :
    valueOf resolve raw = .string (unescapeText raw) := by
  rw [valueOf, parse_of_not_containsBinding h]
  exact evaluate_textParts _

theorem readsOf_of_not_containsBinding (h : containsBinding raw = false) : readsOf raw = [] := by
  rw [readsOf, parse_of_not_containsBinding h]
  exact contextIds_textParts _

end Template

namespace Value

mutual

def mapTexts (f : String → Value) : Value → Value
  | string s    => f s
  | array items => array (mapItemTexts f items)
  | map entries => map (mapEntryTexts f entries)
  | v           => v

def mapItemTexts (f : String → Value) : List Value → List Value
  | []      => []
  | v :: vs => v.mapTexts f :: mapItemTexts f vs

def mapEntryTexts (f : String → Value) : List (String × Value) → List (String × Value)
  | []                  => []
  | (key, v) :: entries => (key, v.mapTexts f) :: mapEntryTexts f entries

end

end Value

namespace Data

variable {resolve : Resolver} {ds : List Data} {es : List (String × Data)}

section Parts

theorem evaluateItems_values (vs : List Value) : evaluateItems resolve (vs.map value) = vs := by
  induction vs
  case nil => rfl
  case cons v vs hi => rw [List.map_cons, evaluateItems, evaluate, hi]

theorem evaluateEntries_values (vs : List (String × Value)) :
    evaluateEntries resolve (vs.map (Prod.map id value)) = vs := by
  induction vs
  case nil => rfl
  case cons entry vs hi =>
    obtain ⟨key, v⟩ := entry
    rw [List.map_cons, Prod.map, evaluateEntries, evaluate, hi]
    rfl

theorem itemReads_values (vs : List Value) : itemReads (vs.map value) = [] := by
  induction vs
  case nil => rfl
  case cons v vs hi => rw [List.map_cons, itemReads, reads, hi, List.nil_append]

theorem entryReads_values (vs : List (String × Value)) :
    entryReads (vs.map (Prod.map id value)) = [] := by
  induction vs
  case nil => rfl
  case cons entry vs hi => rw [List.map_cons, Prod.map, entryReads, reads, hi, List.nil_append]

theorem evaluate_ofItems (ds : List Data) :
    (ofItems ds).evaluate resolve = .array (evaluateItems resolve ds) := by
  unfold ofItems
  split
  case h_1 vs h => rw [mapM_value?_iff.mp h, evaluateItems_values, evaluate]
  case h_2 => rfl

theorem evaluate_ofEntries (es : List (String × Data)) :
    (ofEntries es).evaluate resolve = .map (evaluateEntries resolve es) := by
  unfold ofEntries
  split
  case h_1 vs h => rw [mapM_entry_iff.mp h, evaluateEntries_values, evaluate]
  case h_2 => rfl

theorem reads_ofItems (ds : List Data) : (ofItems ds).reads = itemReads ds := by
  unfold ofItems
  split
  case h_1 vs h => rw [mapM_value?_iff.mp h, itemReads_values, reads]
  case h_2 => rfl

theorem reads_ofEntries (es : List (String × Data)) : (ofEntries es).reads = entryReads es := by
  unfold ofEntries
  split
  case h_1 vs h => rw [mapM_entry_iff.mp h, entryReads_values, reads]
  case h_2 => rfl

theorem isConstant_iff {d : Data} : d.isConstant ↔ d ∈ Set.range value := by
  cases d <;> simp [isConstant]

theorem isConstant_ofItems : (ofItems ds).isConstant ↔ ∀ d ∈ ds, d.isConstant := by
  have hd : (ofItems ds).isConstant ↔ ∃ vs : List Value, vs.map value = ds := by
    unfold ofItems
    split
    case h_1 vs h => simp [isConstant, mapM_value?_iff.mp h]
    case h_2 h =>
      refine ⟨fun hc => absurd hc Bool.false_ne_true, ?_⟩
      rintro ⟨vs, rfl⟩
      exact absurd (h.symm.trans (mapM_value?_iff.mpr rfl)) (by simp)
  simp only [hd, isConstant_iff]
  exact Set.ext_iff.mp (Set.range_list_map value) ds

theorem isConstant_ofEntries : (ofEntries es).isConstant ↔ ∀ e ∈ es, e.2.isConstant := by
  have he : (ofEntries es).isConstant ↔
      ∃ vs : List (String × Value), vs.map (Prod.map id value) = es := by
    unfold ofEntries
    split
    case h_1 vs h => simp [isConstant, mapM_entry_iff.mp h]
    case h_2 h =>
      refine ⟨fun hc => absurd hc Bool.false_ne_true, ?_⟩
      rintro ⟨vs, rfl⟩
      exact absurd (h.symm.trans (mapM_entry_iff.mpr rfl)) (by simp)
  simp only [he, isConstant_iff]
  refine (Set.ext_iff.mp (Set.range_list_map (Prod.map id value)) es).trans ?_
  refine forall₂_congr fun e _ => ⟨?_, ?_⟩
  case refine_1 =>
    rintro ⟨v, rfl⟩
    exact ⟨v.2, rfl⟩
  case refine_2 =>
    rintro ⟨v, hv⟩
    exact ⟨(e.1, v), Prod.ext rfl hv⟩

end Parts

section Texts

variable {v : Value} {d : Data} {vs : List Value} {entries : List (String × Value)}

theorem fault?_parse_string (raw : String) :
    fault? (parse (.string raw)) = fault? (Template.parse raw) := by
  cases hb : containsBinding raw
  case false =>
    rw [Template.parse_of_not_containsBinding hb, parse, hb]
    rfl
  case true =>
    rw [parse, hb]
    exact fault?_map binding _

mutual

theorem fault?_parse (v : Value) :
    fault? (parse v) = v.texts.findSome? fun raw => fault? (Template.parse raw) := by
  match v with
  | .null | .bool _ | .int _ | .double _ => rfl
  | .string raw =>
    rw [fault?_parse_string, Value.texts, List.findSome?_singleton]
  | .array items =>
    rw [parse, fault?_map, Value.texts]
    exact fault?_parseItems items
  | .map entries =>
    rw [parse, fault?_map, Value.texts]
    exact fault?_parseEntries entries

theorem fault?_parseItems (vs : List Value) :
    fault? (parseItems vs) = (Value.itemTexts vs).findSome? fun raw => fault? (Template.parse raw) := by
  match vs with
  | [] => rfl
  | v :: vs =>
    rw [parseItems, fault?_bind_map, Value.itemTexts, List.findSome?_append, fault?_parse v,
      fault?_parseItems vs]

theorem fault?_parseEntries (entries : List (String × Value)) :
    fault? (parseEntries entries) =
      (Value.entryTexts entries).findSome? fun raw => fault? (Template.parse raw) := by
  match entries with
  | [] => rfl
  | (key, v) :: entries =>
    rw [parseEntries, fault?_bind_map, Value.entryTexts, List.findSome?_append, fault?_parse v,
      fault?_parseEntries entries]

end

-- The data is worth and reads what the texts of the value are worth and read as templates.
structure Flattens (v : Value) (d : Data) : Prop where
  evaluate : ∀ resolve, d.evaluate resolve = v.mapTexts (Template.valueOf resolve)
  reads : d.reads = v.texts.flatMap Template.readsOf
  isConstant : d.isConstant ↔ ∀ raw ∈ v.texts, containsBinding raw = false

theorem Flattens.string {raw : String} (h : parse (.string raw) = .ok d) :
    Flattens (.string raw) d := by
  cases hb : containsBinding raw
  case false =>
    rw [parse, hb] at h
    obtain rfl := Except.ok.inj h
    refine ⟨fun resolve => (Template.valueOf_of_not_containsBinding hb).symm, ?_, ?_⟩
    case refine_1 => simp [Value.texts, Template.readsOf_of_not_containsBinding hb, Data.reads]
    case refine_2 => simp [Value.texts, hb, Data.isConstant]
  case true =>
    rw [parse, hb] at h
    obtain ⟨t, ht, rfl⟩ := map_eq_ok_iff.mp h
    refine ⟨fun resolve => ?_, ?_, ?_⟩
    case refine_1 => simp [Value.mapTexts, Template.valueOf, ht, Data.evaluate]
    case refine_2 => simp [Value.texts, Template.readsOf, ht, Data.reads]
    case refine_3 => simp [Value.texts, hb, Data.isConstant]

theorem Flattens.ofItems (h : List.Forall₂ Flattens vs ds) : Flattens (.array vs) (ofItems ds) := by
  refine ⟨fun resolve => ?_, ?_, isConstant_ofItems.trans ?_⟩
  case refine_1 =>
    rw [evaluate_ofItems, Value.mapTexts]
    congr 1
    induction h
    case nil => rfl
    case cons hd _ hi => rw [evaluateItems, Value.mapItemTexts, hd.evaluate, hi]
  case refine_2 =>
    rw [reads_ofItems, Value.texts]
    induction h
    case nil => rfl
    case cons hd _ hi => rw [itemReads, Value.itemTexts, hd.reads, hi, List.flatMap_append]
  case refine_3 =>
    rw [Value.texts]
    induction h
    case nil => simp [Value.itemTexts]
    case cons hd _ hi =>
      rw [List.forall_mem_cons, Value.itemTexts, List.forall_mem_append, hd.isConstant, hi]

theorem Flattens.ofEntries
    (h : List.Forall₂ (fun entry e => entry.1 = e.1 ∧ Flattens entry.2 e.2) entries es) :
    Flattens (.map entries) (ofEntries es) := by
  refine ⟨fun resolve => ?_, ?_, isConstant_ofEntries.trans ?_⟩
  case refine_1 =>
    rw [evaluate_ofEntries, Value.mapTexts]
    congr 1
    induction h
    case nil => rfl
    case cons hd _ hi => rw [evaluateEntries, Value.mapEntryTexts, hd.1, hd.2.evaluate, hi]
  case refine_2 =>
    rw [reads_ofEntries, Value.texts]
    induction h
    case nil => rfl
    case cons hd _ hi => rw [entryReads, Value.entryTexts, hd.2.reads, hi, List.flatMap_append]
  case refine_3 =>
    rw [Value.texts]
    induction h
    case nil => simp [Value.entryTexts]
    case cons hd _ hi =>
      rw [List.forall_mem_cons, Value.entryTexts, List.forall_mem_append, hd.2.isConstant, hi]

mutual

theorem flattens_parse (v : Value) {d : Data} (h : parse v = .ok d) : Flattens v d := by
  match v with
  | .null | .bool _ | .int _ | .double _ =>
    obtain rfl := Except.ok.inj h
    exact ⟨fun _ => rfl, rfl, by simp [Value.texts, Data.isConstant]⟩
  | .string raw => exact .string h
  | .array items =>
    obtain ⟨ds, hd, rfl⟩ := map_eq_ok_iff.mp h
    exact .ofItems (flattens_parseItems items hd)
  | .map entries =>
    obtain ⟨es, he, rfl⟩ := map_eq_ok_iff.mp h
    exact .ofEntries (flattens_parseEntries entries he)

theorem flattens_parseItems (vs : List Value) {ds : List Data} (h : parseItems vs = .ok ds) :
    List.Forall₂ Flattens vs ds := by
  match vs with
  | [] =>
    obtain rfl := Except.ok.inj h
    exact .nil
  | v :: vs =>
    obtain ⟨d, hd, h⟩ := bind_eq_ok_iff.mp h
    obtain ⟨ds, hs, rfl⟩ := map_eq_ok_iff.mp h
    exact .cons (flattens_parse v hd) (flattens_parseItems vs hs)

theorem flattens_parseEntries (entries : List (String × Value)) {es : List (String × Data)}
    (h : parseEntries entries = .ok es) :
    List.Forall₂ (fun entry e => entry.1 = e.1 ∧ Flattens entry.2 e.2) entries es := by
  match entries with
  | [] =>
    obtain rfl := Except.ok.inj h
    exact .nil
  | (key, v) :: entries =>
    obtain ⟨d, hd, h⟩ := bind_eq_ok_iff.mp h
    obtain ⟨es, hs, rfl⟩ := map_eq_ok_iff.mp h
    exact .cons ⟨rfl, flattens_parse v hd⟩ (flattens_parseEntries entries hs)

end

-- Data is read as if each text in it were read as a template: what it is worth is the value with the
-- worth of every text in its place, and the first text that is no template is reported.
theorem parse_mapTexts (v : Value) :
    (∀ e, parse v = .error e ↔
      (v.texts.findSome? fun raw => fault? (Template.parse raw)) = some e) ∧
    ∀ d, parse v = .ok d →
      (∀ resolve, d.evaluate resolve = v.mapTexts (Template.valueOf resolve)) ∧
      (d.isConstant ↔ ∀ raw ∈ v.texts, ¬Template.Opened raw.toList) ∧
      d.contextIds = (v.texts.flatMap Template.readsOf).eraseDups := by
  refine ⟨fun e => by rw [← fault?_parse, fault?_eq_some_iff], fun d h => ?_⟩
  have hf := flattens_parse v h
  refine ⟨hf.evaluate, ?_, ?_⟩
  case refine_1 => simp only [hf.isConstant, ← Template.containsBinding_iff, Bool.not_eq_true]
  case refine_2 => rw [contextIds, hf.reads, distinct_eq_eraseDups]

def listing : Value :=
  .map [("title", .string "@\x7bshop\x7d"),
    ("rows", .array [.string "\\@\x7bshop\x7d", .int 3, .string "for @\x7buser\x7d!"]), ("none", .null)]

def listed : Data :=
  .map [("title", .binding ⟨"@\x7bshop\x7d", [.binding (.read "shop" [])]⟩),
    ("rows", .array [.value (.string "@\x7bshop\x7d"), .value (.int 3),
      .binding ⟨"for @\x7buser\x7d!", [.text "for ".toList, .binding (.read "user" []), .text ['!']]⟩]),
    ("none", .value .null)]

theorem listing_mapTexts : parse listing = .ok listed ∧
    (∀ resolve, listed.evaluate resolve = listing.mapTexts (Template.valueOf resolve)) ∧
    ¬listed.isConstant ∧ listed.contextIds = (listing.texts.flatMap Template.readsOf).eraseDups := by
  have hp : parse listing = .ok listed := rfl
  obtain ⟨he, -, hc⟩ := (parse_mapTexts listing).2 listed hp
  exact ⟨hp, he, Bool.false_ne_true, hc⟩

end Texts

end Data

end BindingEngine
