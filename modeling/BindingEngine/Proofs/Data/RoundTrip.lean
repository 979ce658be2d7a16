import BindingEngine.Proofs.Document.Reading
import Mathlib.Data.List.Infix

namespace BindingEngine

namespace Template

def opening : List Char := ['@', '{']

def escapedOpening : List Char := '\\' :: opening

variable {cs : List Char}

theorem length_unescape_le (cs : List Char) : (unescape cs).length ≤ cs.length := by
  fun_induction unescape cs
  case case1 cs hi => simp only [List.length_cons]; omega
  case case2 c cs _ hi => simpa using hi
  case case3 => exact Nat.le_refl _

theorem unescape_eq_self_iff : unescape cs = cs ↔ ¬escapedOpening <:+: cs := by
  fun_induction unescape cs
  case case1 cs hi =>
    have hm : escapedOpening <:+: '\\' :: '@' :: '{' :: cs := ⟨[], cs, rfl⟩
    refine iff_of_false (fun he => ?_) (not_not_intro hm)
    -- the backslash is gone
    have hl := congrArg List.length he
    have := length_unescape_le cs
    simp only [List.length_cons] at hl
    omega
  case case2 c cs hn hi =>
    have hp : ¬escapedOpening <+: c :: cs := by
      rintro ⟨rest, he⟩
      obtain ⟨rfl, rfl⟩ := List.cons.inj he
      exact hn rest rfl rfl
    rw [List.infix_cons_iff, not_or, List.cons_inj_right, hi]
    exact (and_iff_right hp).symm
  case case3 => simp [escapedOpening]

theorem opening_infix (escaped : Bool) (h : opening <:+: cs) :
    hasOpening escaped cs ∨ escapedOpening <:+: cs ∨ escaped ∧ opening <+: cs := by
  induction cs generalizing escaped
  case nil => simp [opening] at h
  case cons c cs hi =>
    rcases List.infix_cons_iff.mp h with hp | h
    case inl =>
      cases escaped
      case true => exact .inr (.inr ⟨rfl, hp⟩)
      case false =>
        obtain ⟨rest, he⟩ := hp
        obtain ⟨rfl, rfl⟩ := List.cons.inj he
        exact .inl rfl
    case inr =>
      rcases hi (c = '\\') h with ho | hm | ⟨hc, hp⟩
      case inl => exact .inl (by simp [hasOpening, ho])
      case inr.inl => exact .inr (.inl (hm.trans (List.suffix_cons c cs).isInfix))
      case inr.inr =>
        obtain rfl : c = '\\' := of_decide_eq_true hc
        exact .inr (.inl ((List.cons_prefix_cons.mpr ⟨rfl, hp⟩).isInfix))

theorem opening_infix_unescape (h : escapedOpening <:+: cs) : opening <:+: unescape cs := by
  fun_induction unescape cs
  case case1 cs hi => exact ⟨[], unescape cs, rfl⟩
  case case2 c cs hn hi =>
    rcases List.infix_cons_iff.mp h with ⟨rest, he⟩ | h
    case inl =>
      obtain ⟨rfl, rfl⟩ := List.cons.inj he
      exact absurd rfl (hn rest rfl)
    case inr => exact (hi h).trans (List.suffix_cons c _).isInfix
  case case3 => simp [escapedOpening] at h

-- A text that means the same once it was read and written: its source is kept with its bindings, or it
-- has no escaped opening mark that would be written without its backslash.
def Restored (raw : String) : Prop :=
  containsBinding raw ∨ ¬escapedOpening <:+: raw.toList

instance (raw : String) : Decidable (Restored raw) :=
  inferInstanceAs (Decidable (_ ∨ _))

variable {raw : String}

theorem unescapeText_eq_self_iff : unescapeText raw = raw ↔ ¬escapedOpening <:+: raw.toList := by
  rw [← unescape_eq_self_iff, unescapeText, ← String.toList_inj, String.toList_ofList]

-- Without its backslash an opening mark opens a binding, unless there was another one before it, which
-- is read away then.
theorem unescapeText_fixed_iff (hb : ¬containsBinding raw) :
    ¬containsBinding (unescapeText raw) ∧ unescapeText (unescapeText raw) = unescapeText raw ↔
      ¬escapedOpening <:+: raw.toList := by
  constructor
  case mp =>
    rintro ⟨hn, hu⟩ hm
    have ho : opening <:+: (unescapeText raw).toList := by
      rw [unescapeText, String.toList_ofList]
      exact opening_infix_unescape hm
    rcases opening_infix false ho with ho | hm | ⟨hf, _⟩
    case inl => exact hn ho
    case inr.inl => exact unescapeText_eq_self_iff.mp hu hm
    case inr.inr => contradiction
  case mpr =>
    intro hm
    have hu : unescapeText raw = raw := unescapeText_eq_self_iff.mpr hm
    exact ⟨hu.symm ▸ hb, congrArg unescapeText hu⟩

theorem source_parse {t : Template} (h : parse raw = .ok t) : t.source = raw := by
  obtain ⟨_, _, rfl⟩ := map_eq_ok_iff.mp h
  rfl

end Template

namespace Value

mutual

def texts : Value → List String
  | string s => [s]
  | array items => itemTexts items
  | map entries => entryTexts entries
  | _ => []

def itemTexts : List Value → List String
  | [] => []
  | v :: vs => v.texts ++ itemTexts vs

def entryTexts : List (String × Value) → List String
  | [] => []
  | (_, v) :: entries => v.texts ++ entryTexts entries

end

end Value

namespace Data

variable {d : Data} {ds : List Data} {es : List (String × Data)} {raw : String}

section Constants

theorem mapM_value?_iff {vs : List Value} : ds.mapM value? = some vs ↔ ds = vs.map value :=
  mapM_eq_some_iff fun d v => by cases d <;> simp [value?]

theorem mapM_entry_iff {vs : List (String × Value)} :
    (es.mapM fun (key, d) => d.value?.map (key, ·)) = some vs ↔ es = vs.map (Prod.map id value) := by
  refine mapM_eq_some_iff fun e v => ?_
  obtain ⟨key, d⟩ := e
  obtain ⟨key', v⟩ := v
  cases d <;> simp [value?]

theorem writtenItems_values (vs : List Value) :
    writtenItems (vs.map value) = Value.documentedItems vs := by
  induction vs
  case nil => rfl
  case cons v vs hi => simp only [List.map_cons, writtenItems, written, Value.documentedItems, hi]

theorem writtenEntries_values (vs : List (String × Value)) :
    writtenEntries (vs.map (Prod.map id value)) = Value.documentedEntries vs := by
  induction vs
  case nil => rfl
  case cons entry vs hi =>
    obtain ⟨key, v⟩ := entry
    simp only [List.map_cons, Prod.map, id, writtenEntries, written, Value.documentedEntries, hi]

theorem written_ofItems (ds : List Data) : (ofItems ds).written = .array (writtenItems ds) := by
  unfold ofItems
  split
  case h_1 vs h => rw [mapM_value?_iff.mp h, writtenItems_values, written, Value.documented]
  case h_2 => rfl

theorem written_ofEntries (es : List (String × Data)) :
    (ofEntries es).written = .map (writtenEntries es) := by
  unfold ofEntries
  split
  case h_1 vs h => rw [mapM_entry_iff.mp h, writtenEntries_values, written, Value.documented]
  case h_2 => rfl

theorem ofItems_inj {ds ds' : List Data} : ofItems ds = ofItems ds' ↔ ds = ds' := by
  refine ⟨fun h => ?_, congrArg ofItems⟩
  cases hd : ds.mapM value? <;> cases hd' : ds'.mapM value? <;> simp [ofItems, hd, hd'] at h
  case none.none => exact h
  case some.some => rw [mapM_value?_iff.mp hd, mapM_value?_iff.mp hd', h]

theorem ofEntries_inj {es es' : List (String × Data)} : ofEntries es = ofEntries es' ↔ es = es' := by
  refine ⟨fun h => ?_, congrArg ofEntries⟩
  unfold ofEntries at h
  cases hd : es.mapM fun (key, d) => d.value?.map (key, ·) <;>
    cases hd' : es'.mapM fun (key, d) => d.value?.map (key, ·) <;> simp [hd, hd'] at h
  case none.none => exact h
  case some.some => rw [mapM_entry_iff.mp hd, mapM_entry_iff.mp hd', h]

end Constants

theorem parse_string_iff : parse (.string raw) = .ok (.value (.string raw)) ↔
    ¬containsBinding raw ∧ unescapeText raw = raw := by
  cases hb : containsBinding raw
  case false => simp [parse, hb]
  case true => simp [parse, hb, map_eq_ok_iff]

theorem parse_written_string_iff (h : parse (.string raw) = .ok d) :
    parse d.written = .ok d ↔ Template.Restored raw := by
  cases hb : containsBinding raw
  case true =>
    simp only [parse, hb, if_true, map_eq_ok_iff] at h
    obtain ⟨t, ht, rfl⟩ := h
    have hp : parse (.string raw) = .ok (binding t) := by simp [parse, hb, ht]
    rw [written, Template.source_parse ht]
    exact iff_of_true hp (.inl hb)
  case false =>
    have hn : ¬containsBinding raw := by simp [hb]
    obtain rfl : value (.string (unescapeText raw)) = d := by simpa [parse, hb] using h
    have hw : (value (.string (unescapeText raw))).written = .string (unescapeText raw) := rfl
    rw [hw, parse_string_iff, Template.unescapeText_fixed_iff hn]
    exact (or_iff_right hn).symm

theorem parseItems_cons_iff {v : Value} {vs : List Value} :
    parseItems (v :: vs) = .ok (d :: ds) ↔ parse v = .ok d ∧ parseItems vs = .ok ds := by
  simp [parseItems, bind_eq_ok_iff, map_eq_ok_iff]

theorem parseEntries_cons_iff {key key' : String} {v : Value} {entries : List (String × Value)} :
    parseEntries ((key, v) :: entries) = .ok ((key', d) :: es) ↔
      key = key' ∧ parse v = .ok d ∧ parseEntries entries = .ok es := by
  simp [parseEntries, bind_eq_ok_iff, map_eq_ok_iff, and_assoc, and_left_comm]

mutual

-- By induction on the value: its parts are written one by one, whether they are kept apart or not.
theorem parse_written_iff (v : Value) {d : Data} (hv : v.documented = v) (h : parse v = .ok d) :
    parse d.written = .ok d ↔ ∀ raw ∈ v.texts, Template.Restored raw := by
  match v with
  | .string raw => simpa [Value.texts] using parse_written_string_iff h
  | .array items =>
    obtain ⟨ds, hd, rfl⟩ := map_eq_ok_iff.mp h
    rw [written_ofItems, parse, Value.texts, ← parseItems_written_iff items (Value.array.inj hv) hd]
    simp [map_eq_ok_iff, ofItems_inj]
  | .map entries =>
    obtain ⟨es, he, rfl⟩ := map_eq_ok_iff.mp h
    rw [written_ofEntries, parse, Value.texts,
      ← parseEntries_written_iff entries (Value.map.inj hv) he]
    simp [map_eq_ok_iff, ofEntries_inj]
  | .null | .bool _ | .int _ | .double _ =>
    obtain rfl := Except.ok.inj h
    rw [written, hv]
    simpa [Value.texts] using h

theorem parseItems_written_iff (vs : List Value) {ds : List Data} (hv : Value.documentedItems vs = vs)
    (h : parseItems vs = .ok ds) :
    parseItems (writtenItems ds) = .ok ds ↔ ∀ raw ∈ Value.itemTexts vs, Template.Restored raw := by
  match vs with
  | [] =>
    obtain rfl := Except.ok.inj h
    simpa [Value.itemTexts, writtenItems] using h
  | v :: vs =>
    obtain ⟨hv, hvs⟩ := List.cons.inj hv
    cases ds
    case nil => simp [parseItems, bind_eq_ok_iff, map_eq_ok_iff] at h
    case cons d ds =>
      obtain ⟨h, hs⟩ := parseItems_cons_iff.mp h
      rw [writtenItems, parseItems_cons_iff, parse_written_iff v hv h, parseItems_written_iff vs hvs hs,
        Value.itemTexts, List.forall_mem_append]

theorem parseEntries_written_iff (entries : List (String × Value)) {es : List (String × Data)}
    (hv : Value.documentedEntries entries = entries) (h : parseEntries entries = .ok es) :
    parseEntries (writtenEntries es) = .ok es ↔
      ∀ raw ∈ Value.entryTexts entries, Template.Restored raw := by
  match entries with
  | [] =>
    obtain rfl := Except.ok.inj h
    simpa [Value.entryTexts, writtenEntries] using h
  | (key, v) :: entries =>
    obtain ⟨hv, hvs⟩ := List.cons.inj hv
    cases es
    case nil => simp [parseEntries, bind_eq_ok_iff, map_eq_ok_iff] at h
    case cons e es =>
      obtain ⟨key', d⟩ := e
      obtain ⟨rfl, h, hs⟩ := parseEntries_cons_iff.mp h
      rw [writtenEntries, parseEntries_cons_iff, parse_written_iff v (Prod.mk.inj hv).2 h,
        parseEntries_written_iff entries hvs hs, Value.entryTexts, List.forall_mem_append]
      simp

end

end Data

namespace Expression

variable {raw : String}

theorem decode_string_iff : decode (.string raw) = .ok (.value raw) ↔
    ¬containsBinding raw ∧ unescapeText raw = raw := by
  cases hb : containsBinding raw
  case false => simp [decode, hb, Attribute.read?, Value.string?]
  case true => simp [decode, hb, bound, mapError_eq_ok_iff, map_eq_ok_iff]

theorem decode_written_string_iff {x : Expression String} (h : decode (.string raw) = .ok x) :
    decode x.written = .ok x ↔ Template.Restored raw := by
  cases hb : containsBinding raw
  case true =>
    simp only [decode, hb, if_true, mapError_eq_ok_iff, bound, map_eq_ok_iff] at h
    obtain ⟨t, ht, rfl⟩ := h
    have hd : decode (.string raw) = .ok (binding t : Expression String) := by
      simp [decode, hb, bound, ht, mapError_eq_ok_iff]
    rw [written, Template.source_parse ht]
    exact iff_of_true hd (.inl hb)
  case false =>
    have hn : ¬containsBinding raw := by simp [hb]
    obtain rfl : value (unescapeText raw) = x := by
      simpa [decode, hb, Attribute.read?, Value.string?] using h
    have hw : (value (unescapeText raw)).written = .string (unescapeText raw) := rfl
    rw [hw, decode_string_iff, Template.unescapeText_fixed_iff hn]
    exact (or_iff_right hn).symm

theorem decode_written_iff {v : Value} {x : Expression String} (h : decode v = .ok x) :
    decode x.written = .ok x ↔ ∀ raw ∈ v.texts, Template.Restored raw := by
  cases v
  case string raw => simpa [Value.texts] using decode_written_string_iff h
  all_goals contradiction

end Expression

-- A document means the same once it was read and written, as data or as a text, exactly if each text in it
-- does.
theorem restored_iff {v : Value} (hv : v.documented = v) :
    (∀ d, Data.parse v = .ok d →
      (Data.parse d.written = .ok d ↔ ∀ raw ∈ v.texts, Template.Restored raw)) ∧
    ∀ x : Expression String, Expression.decode v = .ok x →
      (Expression.decode x.written = .ok x ↔ ∀ raw ∈ v.texts, Template.Restored raw) :=
  ⟨fun _ hd => Data.parse_written_iff v hv hd, fun _ hx => Expression.decode_written_iff hx⟩

def marked : String := "\\@\x7bx\x7d"

def unmarked : String := "@\x7bx\x7d"

theorem not_restored_marked : ¬Template.Restored marked := by
  decide

theorem marked_lost :
    Data.parse (.string marked) = .ok (.value (.string unmarked)) ∧
    Data.parse (Data.value (.string unmarked)).written ≠ .ok (.value (.string unmarked)) ∧
    Expression.decode (.string marked) = .ok (.value unmarked) ∧
    Expression.decode (Expression.value unmarked).written ≠ .ok (.value unmarked) := by
  have ht : ¬∀ raw ∈ (Value.string marked).texts, Template.Restored raw := by
    simpa [Value.texts] using not_restored_marked
  obtain ⟨hd, hx⟩ := restored_iff (v := .string marked) rfl
  have hp : Data.parse (.string marked) = .ok (.value (.string unmarked)) := rfl
  have he : Expression.decode (.string marked) = .ok (.value unmarked) := rfl
  exact ⟨hp, fun h => ht ((hd _ hp).mp h), he, fun h => ht ((hx _ he).mp h)⟩

theorem exists_not_restored :
    (¬∀ v d, v.documented = v → Data.parse v = .ok d → Data.parse d.written = .ok d) ∧
    ¬∀ raw (x : Expression String), Expression.decode (.string raw) = .ok x →
      Expression.decode x.written = .ok x := by
  have hd : Data.parse (.string marked) = .ok (.value (.string unmarked)) := rfl
  have hx : Expression.decode (.string marked) = .ok (.value unmarked) := rfl
  refine ⟨fun h => ?_, fun h => ?_⟩
  case refine_1 =>
    exact not_restored_marked ((Data.parse_written_string_iff hd).mp (h _ _ rfl hd))
  case refine_2 =>
    exact not_restored_marked ((Expression.decode_written_string_iff hx).mp (h _ _ hx))

end BindingEngine
