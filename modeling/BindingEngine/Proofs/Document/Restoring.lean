import BindingEngine.Proofs.Data.RoundTrip

namespace BindingEngine

namespace Value

-- A value that a document can hold, as all its numbers are finite, in which no opening mark is escaped.
structure Plain (v : Value) : Prop where
  documented : v.documented = v
  unescaped : ∀ raw ∈ v.texts, ¬Template.escapedOpening <:+: raw.toList

variable {v : Value} {items : List Value} {entries : List (String × Value)}

theorem documentedItems_eq (items : List Value) : documentedItems items = items.map documented := by
  induction items
  case nil => rfl
  case cons v items hi => rw [documentedItems, hi, List.map_cons]

theorem documentedEntries_eq (entries : List (String × Value)) :
    documentedEntries entries = entries.map (Prod.map id documented) := by
  induction entries
  case nil => rfl
  case cons entry entries hi => rw [documentedEntries, hi, List.map_cons, Prod.map, id]

theorem itemTexts_eq (items : List Value) : itemTexts items = items.flatMap texts := by
  induction items
  case nil => rfl
  case cons v items hi => rw [itemTexts, hi, List.flatMap_cons]

theorem entryTexts_eq (entries : List (String × Value)) :
    entryTexts entries = entries.flatMap fun entry => entry.2.texts := by
  induction entries
  case nil => rfl
  case cons entry entries hi => rw [entryTexts, hi, List.flatMap_cons]

theorem map_eq_self_iff {α : Type} {f : α → α} {as : List α} : as.map f = as ↔ ∀ a ∈ as, f a = a := by
  have hi : as.map f = as ↔ as.map f = as.map id := by rw [List.map_id]
  exact hi.trans List.map_inj_left

theorem plain_array_iff : (array items).Plain ↔ ∀ v ∈ items, v.Plain := by
  have hd : (array items).documented = array items ↔ ∀ v ∈ items, v.documented = v := by
    rw [documented, documentedItems_eq, array.injEq, map_eq_self_iff]
  have ht : (array items).texts = items.flatMap texts := by rw [texts, itemTexts_eq]
  constructor
  case mp =>
    intro h v hv
    refine ⟨hd.mp h.documented v hv, fun raw hr => h.unescaped raw ?_⟩
    exact ht ▸ List.mem_flatMap_of_mem hv hr
  case mpr =>
    intro h
    refine ⟨hd.mpr fun v hv => (h v hv).documented, fun raw hr => ?_⟩
    obtain ⟨v, hv, hr⟩ := List.mem_flatMap.mp (ht ▸ hr)
    exact (h v hv).unescaped raw hr

theorem plain_map_iff : (map entries).Plain ↔ ∀ entry ∈ entries, entry.2.Plain := by
  have hd : (map entries).documented = map entries ↔
      ∀ entry ∈ entries, entry.2.documented = entry.2 := by
    rw [documented, documentedEntries_eq, map.injEq, map_eq_self_iff]
    exact forall₂_congr fun entry _ => by simp [Prod.ext_iff]
  have ht : (map entries).texts = entries.flatMap fun entry => entry.2.texts := by
    rw [texts, entryTexts_eq]
  constructor
  case mp =>
    intro h entry he
    refine ⟨hd.mp h.documented entry he, fun raw hr => h.unescaped raw ?_⟩
    exact ht ▸ List.mem_flatMap_of_mem he hr
  case mpr =>
    intro h
    refine ⟨hd.mpr fun entry he => (h entry he).documented, fun raw hr => ?_⟩
    obtain ⟨entry, he, hr⟩ := List.mem_flatMap.mp (ht ▸ hr)
    exact (h entry he).unescaped raw hr

theorem Plain.tail (h : (array (v :: items)).Plain) : (array items).Plain :=
  plain_array_iff.mpr fun w hw => plain_array_iff.mp h w (List.mem_cons_of_mem _ hw)

theorem Plain.erase (h : (map entries).Plain) (key : String) : (map (Table.erase entries key)).Plain :=
  plain_map_iff.mpr fun entry he => plain_map_iff.mp h entry (List.mem_of_mem_filter he)

end Value

theorem Attribute.read?_headers_iff {v : Value} {headers : Headers} :
    Attribute.read? v = some headers ↔ v = Attribute.write headers := by
  have hm (entries : Table String Value) :
      (entries.mapM fun entry => entry.2.string?.map (entry.1, ·)) = some headers ↔
        entries = headers.map (Prod.map id Value.string) := by
    refine mapM_eq_some_iff fun e e' => ?_
    obtain ⟨name, v⟩ := e
    obtain ⟨name', text⟩ := e'
    cases v <;> simp [Value.string?]
  have hr : Attribute.read? v = some headers ↔ ∃ entries, v.entries? = some entries ∧
      (entries.mapM fun entry => entry.2.string?.map (entry.1, ·)) = some headers :=
    Option.bind_eq_some_iff
  have hw : Attribute.write headers = .map (headers.map (Prod.map id Value.string)) := rfl
  simp only [hr, hm, hw]
  cases v <;> simp [Value.entries?]

theorem Decoded.headers_write (headers : Headers) :
    Decoded.headers (Attribute.write headers) = .ok headers :=
  Decoded.ofOption_eq_ok_iff.mpr (Attribute.read?_headers_iff.mpr rfl)

theorem Decoded.keeps_string (x : Option String) : Decoded.Keeps Decoded.string .string x :=
  fun _ _ => ⟨Value.noConfusion, rfl⟩

theorem Decoded.string_write (s : String) : Decoded.string (.string s) = .ok s :=
  rfl

theorem Decoded.bool_write (b : Bool) : Decoded.bool (.bool b) = .ok b :=
  rfl

theorem Decoded.method_write (m : Method) : Decoded.method (Attribute.write m) = .ok m := by
  cases m <;> rfl

theorem Data.kind_written {v : Value} {d : Data} (hv : v.documented = v) (h : Data.parse v = .ok d) :
    d.written.kind = v.kind := by
  cases v
  case string raw =>
    cases hb : containsBinding raw
    case true =>
      simp only [parse, hb, if_true, map_eq_ok_iff] at h
      obtain ⟨_, _, rfl⟩ := h
      rfl
    case false =>
      obtain rfl : value (.string (unescapeText raw)) = d := by simpa [parse, hb] using h
      rfl
  case array =>
    obtain ⟨_, _, rfl⟩ := map_eq_ok_iff.mp h
    rw [written_ofItems, Value.kind, Value.kind]
  case map =>
    obtain ⟨_, _, rfl⟩ := map_eq_ok_iff.mp h
    rw [written_ofEntries, Value.kind, Value.kind]
  all_goals
    obtain rfl := Except.ok.inj h
    rw [written, hv]

-- What `decode` takes from a plain document it takes again from what `write` makes of it, and only null
-- is written as null.
structure Restores {α : Type} (decode : Value → Decoded α) (write : α → Value) : Prop where
  again {v : Value} {a : α} : v.Plain → decode v = .ok a → decode (write a) = .ok a
  ne_null {v : Value} {a : α} : v.Plain → decode v = .ok a → v ≠ .null → write a ≠ .null

namespace Restores

variable {α : Type} {decode : Value → Decoded α} {write : α → Value} {v : Value}

theorem optional (h : Restores decode write) (hv : v.Plain) {x : Option α}
    (hx : Decoded.optional decode v = .ok x) : Decoded.Keeps decode write x := by
  rintro a rfl
  obtain ⟨hn, ha⟩ := Decoded.optional_eq_some_iff.mp hx
  exact ⟨h.ne_null hv ha hn, h.again hv ha⟩

theorem of_eq (h : ∀ v a, v.Plain → decode v = .ok a → write a = v) : Restores decode write where
  again {v a} hv ha := (congrArg decode (h v a hv ha)).trans ha
  ne_null {v a} hv ha hn := (h v a hv ha).symm ▸ hn

theorem data : Restores Decoded.data Data.written where
  again hv hd := by
    rw [Decoded.data, mapError_eq_ok_iff] at hd ⊢
    exact (Data.parse_written_iff _ hv.documented hd).mpr fun raw hr => .inr (hv.unescaped raw hr)
  ne_null {v d} hv hd hn h := by
    rw [Decoded.data, mapError_eq_ok_iff] at hd
    have hk : d.written.kind = v.kind := Data.kind_written hv.documented hd
    cases v
    case null => contradiction
    all_goals simp [Value.kind, h] at hk

end Restores

namespace Expression

variable {α : Type} [Attribute α] {v : Value} {x : Expression α}

theorem decode_eq (hv : v.Plain) (hb : ∀ raw, v = .string raw → ¬containsBinding raw) :
    decode v = Decoded.ofOption ((Attribute.read? v).map (value (α := α))) := by
  cases v
  case string raw =>
    have hu : unescapeText raw = raw :=
      Template.unescapeText_eq_self_iff.mpr (hv.unescaped raw (by simp [Value.texts]))
    simp only [decode, hb raw rfl, hu]
    cases Attribute.read? (α := α) (.string raw) <;> rfl
  all_goals
    simp only [decode]
    split <;> simp_all [Decoded.ofOption]

theorem decode_cases (hv : v.Plain) (h : decode v = .ok x) :
    (∃ t, x = binding t ∧ v = .string t.source) ∨ ∃ a, x = value a ∧ Attribute.read? v = some a := by
  by_cases hb : ∃ raw, v = .string raw ∧ containsBinding raw
  case pos =>
    obtain ⟨raw, rfl, hb⟩ := hb
    simp only [decode, hb, if_true, mapError_eq_ok_iff, bound, map_eq_ok_iff] at h
    obtain ⟨t, ht, rfl⟩ := h
    exact .inl ⟨t, rfl, congrArg Value.string (Template.source_parse ht).symm⟩
  case neg =>
    rw [decode_eq hv fun raw hv hc => hb ⟨raw, hv, hc⟩, Decoded.ofOption_eq_ok_iff,
      Option.map_eq_some_iff] at h
    obtain ⟨a, ha, rfl⟩ := h
    exact .inr ⟨a, rfl, ha⟩

theorem restores (h : ∀ v (a : α), Attribute.read? v = some a → Attribute.write a = v ∨
      (Attribute.write a).documented ≠ .null ∧
        decode (Attribute.write a).documented = .ok (value a)) :
    Restores (decode (α := α)) written := by
  have hw : ∀ {v x}, v.Plain → decode v = .ok x →
      x.written = v ∨ x.written ≠ .null ∧ decode x.written = .ok (x : Expression α) := by
    intro v x hv hx
    obtain ⟨t, rfl, hs⟩ | ⟨a, rfl, ha⟩ := decode_cases hv hx
    case inl => exact .inl hs.symm
    case inr => exact (h v a ha).imp_left fun hv' => (congrArg Value.documented hv').trans hv.documented
  constructor
  case again =>
    intro v x hv hx
    obtain he | ⟨_, hd⟩ := hw hv hx
    case inl => exact he.symm ▸ hx
    case inr => exact hd
  case ne_null =>
    intro v x hv hx hn
    obtain he | ⟨hn', _⟩ := hw hv hx
    case inl => exact he.symm ▸ hn
    case inr => exact hn'

theorem restores_string : Restores (decode (α := String)) written :=
  restores fun v a ha => .inl <| by cases v <;> simp_all [Attribute.read?, Attribute.write, Value.string?]

theorem restores_bool : Restores (decode (α := Bool)) written :=
  restores fun v a ha => .inl <| by cases v <;> simp_all [Attribute.read?, Attribute.write, Value.bool?]

theorem restores_headers : Restores (decode (α := Headers)) written :=
  restores fun _ _ ha => .inl (Attribute.read?_headers_iff.mp ha).symm

theorem restores_method : Restores (decode (α := Method)) written :=
  restores fun _ m _ => .inr ⟨Value.noConfusion, by cases m <;> rfl⟩

end Expression

namespace Record

variable {α : Type} {names required : List String} {start a : α} {fields : Table String Value}
variable {step : α → String → Value → Decoded α} {v w : Value} {name : String} {surplus : Bool}

theorem plain_of_mem_fields? (hv : v.Plain) (hf : fields? names v = some (fields, surplus)) :
    ∀ entry ∈ fields, entry.2.Plain := by
  cases v <;> simp only [fields?, Option.some.injEq, Prod.mk.injEq, reduceCtorEq] at hf
  case map entries =>
    obtain ⟨rfl, _⟩ := hf
    exact Value.plain_map_iff.mp hv
  case array items =>
    obtain ⟨rfl, _⟩ := hf
    intro entry he
    exact Value.plain_array_iff.mp hv _ (List.of_mem_zip he).2

theorem foldlM_induction {P : α → Prop} (hm : ∀ entry ∈ fields, entry.2.Plain) (hs : P start)
    (hp : ∀ a name w a', w.Plain → P a → step a name w = .ok a' → P a')
    (h : fields.foldlM (fun a entry => step a entry.1 entry.2) start = .ok a) : P a := by
  induction fields generalizing start
  case nil => exact Except.ok.inj h ▸ hs
  case cons entry fields hi =>
    obtain ⟨he, hm⟩ := List.forall_mem_cons.mp hm
    obtain ⟨b, hb, h⟩ := bind_eq_ok_iff.mp h
    exact hi hm (hp _ _ _ _ he hs hb) h

theorem read_induction {P : α → Prop} (hv : v.Plain) (hs : P start)
    (hp : ∀ a name w a', w.Plain → P a → step a name w = .ok a' → P a')
    (h : read names required start step v = .ok a) : P a := by
  unfold read at h
  split at h
  case h_1 => contradiction
  case h_2 fields surplus hf =>
    obtain ⟨b, hb, h⟩ := bind_eq_ok_iff.mp h
    have hb : P b := foldlM_induction (plain_of_mem_fields? hv hf) hs hp hb
    split at h
    case isTrue => contradiction
    case isFalse => exact Except.ok.inj h ▸ hb

end Record

end BindingEngine
