import BindingEngine.Proofs.Document.Restoring
import BindingEngine.Proofs.Path.Grammar

namespace BindingEngine

namespace Text

variable {cs : List Char}

theorem dropWhile_isBlank (h : ∀ c ∈ cs.head?, ¬isBlank c) : cs.dropWhile isBlank = cs := by
  cases cs
  case nil => rfl
  case cons c cs => exact List.dropWhile_cons_of_neg (h c rfl)

theorem trim_eq_self (hf : ∀ c ∈ cs.head?, ¬isBlank c) (hl : ∀ c ∈ cs.getLast?, ¬isBlank c) :
    trim cs = cs := by
  have hr : ∀ c ∈ cs.reverse.head?, ¬isBlank c := by rwa [List.head?_reverse]
  rw [trim, dropWhile_isBlank hf, dropWhile_isBlank hr, List.reverse_reverse]

theorem exists_trim (cs : List Char) : ∃ before after, (∀ c ∈ before, isBlank c) ∧
    (∀ c ∈ after, isBlank c) ∧ cs = before ++ (trim cs ++ after) := by
  have hsplit (cs : List Char) := List.takeWhile_append_dropWhile (p := isBlank) (l := cs)
  have hblank (cs : List Char) :=
    List.all_eq_true.mp (List.all_takeWhile (p := isBlank) (l := cs))
  refine ⟨cs.takeWhile isBlank,
    ((cs.dropWhile isBlank).reverse.takeWhile isBlank).reverse, hblank cs,
    fun c hc => hblank _ c (List.mem_reverse.mp hc), ?_⟩
  rw [trim, ← List.reverse_append, hsplit, List.reverse_reverse, hsplit]

theorem trim_padded {before after : List Char} (hb : ∀ c ∈ before, isBlank c)
    (ha : ∀ c ∈ after, isBlank c) (hne : cs ≠ []) (hf : ∀ c ∈ cs.head?, ¬isBlank c)
    (hl : ∀ c ∈ cs.getLast?, ¬isBlank c) : trim (before ++ (cs ++ after)) = cs := by
  have hf' : ∀ c ∈ (cs ++ after).head?, ¬isBlank c := by
    rwa [List.head?_append_of_ne_nil _ hne]
  have hl' : ∀ c ∈ cs.reverse.head?, ¬isBlank c := by rwa [List.head?_reverse]
  have hr : ∀ c ∈ after.reverse, isBlank c := fun c hc => ha c (List.mem_reverse.mp hc)
  rw [trim, List.dropWhile_append_of_pos hb, dropWhile_isBlank hf', List.reverse_append,
    List.dropWhile_append_of_pos hr, dropWhile_isBlank hl', List.reverse_reverse]

end Text

namespace Segment

-- A segment that is read again when it is written, as its key does not hide the end of the group.
def Legible : Segment → Prop
  | key k => ']' ∉ k.toList
  | index _ => True

theorem grouped_or_identifier (s : Segment) :
    (∀ k, s = key k → ¬isIdentifier k.toList) ∨ ∃ k, s = key k ∧ isIdentifier k.toList := by
  cases s
  case index => exact .inl fun _ he => Segment.noConfusion he
  case key k =>
    by_cases hk : isIdentifier k.toList
    case pos => exact .inr ⟨k, rfl, hk⟩
    case neg => exact .inl fun _ he => key.inj he ▸ hk

end Segment

namespace Path

section Quotes

def escapeQuotes (key : List Char) : List Char :=
  key.flatMap fun c => if c = '\'' then ['\\', '\''] else [c]

variable {key : List Char}

theorem quoteKey_eq (key : List Char) : Segment.quoteKey key = '\'' :: escapeQuotes key ++ ['\''] :=
  rfl

theorem head?_escapeQuotes_ne : (escapeQuotes key).head? ≠ some '\'' := by
  cases key
  case nil => simp [escapeQuotes]
  case cons c cs =>
    rw [escapeQuotes, List.flatMap_cons]
    split <;> simp_all

theorem unescapeQuotes_escapeQuotes (key : List Char) : unescapeQuotes (escapeQuotes key) = key := by
  induction key
  case nil => rfl
  case cons c cs hi =>
    have he : escapeQuotes (c :: cs) =
        (if c = '\'' then ['\\', '\''] else [c]) ++ escapeQuotes cs := List.flatMap_cons
    rw [he]
    split
    case isTrue hc => simp [unescapeQuotes, hi, hc]
    case isFalse hc =>
      -- no quote follows that the character could escape
      rw [List.singleton_append, unescapeQuotes, hi]
      intro rest _ hq
      exact head?_escapeQuotes_ne (by rw [hq]; rfl)

theorem not_mem_quoteKey (h : ']' ∉ key) : ']' ∉ Segment.quoteKey key := by
  have he : ']' ∉ escapeQuotes key := by
    intro hm
    obtain ⟨c, hc, hm⟩ := List.mem_flatMap.mp hm
    split at hm
    case isTrue => simp at hm
    case isFalse => exact h (List.mem_singleton.mp hm ▸ hc)
  simp [quoteKey_eq, he]

end Quotes

theorem isDigit_of_mem {n : Nat} {c : Char} (h : c ∈ Nat.toDigits 10 n) : c.isDigit :=
  Nat.isDigit_of_mem_toDigits (by decide) (by decide) h

section Groups

variable {cs digits : List Char} {s : Segment} {i : UInt64}

theorem quoted?_eq_some {key : List Char} (h : quoted? cs = some key) :
    cs = '\'' :: (key ++ ['\'']) := by
  unfold quoted? at h
  split at h
  case h_2 => contradiction
  case h_1 cs =>
    split at h
    case isFalse => contradiction
    case isTrue hl =>
      obtain rfl := Option.some.inj h
      obtain ⟨key, rfl⟩ := List.getLast?_eq_some_iff.mp hl
      rw [List.dropLast_concat]

theorem position?_eq_some (h : position? cs = some i) : ∃ digits, digits ≠ [] ∧
    (∀ c ∈ digits, c.isDigit) ∧ decimalValue digits < Nat.pow 2 64 ∧
    i = (decimalValue digits).toUInt64 ∧ (cs = digits ∨ cs = '+' :: digits) := by
  have hd {digits : List Char} (h : (if digits.isEmpty || !digits.all Char.isDigit then none
      else if decimalValue digits < Nat.pow 2 64 then some (decimalValue digits).toUInt64
      else none) = some i) : digits ≠ [] ∧ (∀ c ∈ digits, c.isDigit) ∧
      decimalValue digits < Nat.pow 2 64 ∧ i = (decimalValue digits).toUInt64 := by
    split at h
    case isTrue => contradiction
    case isFalse hn =>
      simp only [Bool.or_eq_true, List.isEmpty_iff, Bool.not_eq_true', not_or, Bool.not_eq_false,
        List.all_eq_true] at hn
      split at h
      case isFalse => contradiction
      case isTrue hv => exact ⟨hn.1, hn.2, hv, (Option.some.inj h).symm⟩
  unfold position? at h
  split at h
  case h_1 digits =>
    obtain ⟨hne, hd, hv, hi⟩ := hd h
    exact ⟨digits, hne, hd, hv, hi, .inr rfl⟩
  case h_2 =>
    obtain ⟨hne, hd, hv, hi⟩ := hd h
    exact ⟨cs, hne, hd, hv, hi, .inl rfl⟩

theorem group?_cases (h : group? cs = some s) :
    (∃ key, cs = '\'' :: (key ++ ['\'']) ∧ s = .key (String.ofList (unescapeQuotes key))) ∨
    ∃ digits, digits ≠ [] ∧ (∀ c ∈ digits, c.isDigit) ∧ decimalValue digits < Nat.pow 2 64 ∧
      s = .index (decimalValue digits).toUInt64 ∧ (cs = digits ∨ cs = '+' :: digits) := by
  unfold group? at h
  split at h
  case h_1 key hq =>
    obtain rfl := Option.some.inj h
    exact .inl ⟨key, quoted?_eq_some hq, rfl⟩
  case h_2 =>
    obtain ⟨i, hi, rfl⟩ := Option.map_eq_some_iff.mp h
    obtain ⟨digits, hne, hd, hv, rfl, hcs⟩ := position?_eq_some hi
    exact .inr ⟨digits, hne, hd, hv, rfl, hcs⟩

theorem group?_of_quotes (key : List Char) :
    group? ('\'' :: (key ++ ['\''])) = some (.key (String.ofList (unescapeQuotes key))) := by
  have hq : quoted? ('\'' :: (key ++ ['\''])) = some key := by simp [quoted?]
  rw [group?, hq]

theorem position?_of_digits (hne : digits ≠ []) (hd : ∀ c ∈ digits, c.isDigit)
    (hv : decimalValue digits < Nat.pow 2 64) (hs : cs = digits ∨ cs = '+' :: digits) :
    position? cs = some (decimalValue digits).toUInt64 := by
  have hr : (digits.isEmpty || !digits.all Char.isDigit) = false := by
    simpa [List.isEmpty_eq_false_iff.mpr hne] using hd
  rcases hs with rfl | rfl
  case inr => simp [position?, hr, hv]
  case inl =>
    unfold position?
    split
    case h_1 => exact absurd (hd '+' List.mem_cons_self) (by decide)
    case h_2 => simp [hr, hv]

theorem group?_of_digits (hne : digits ≠ []) (hd : ∀ c ∈ digits, c.isDigit)
    (hv : decimalValue digits < Nat.pow 2 64) (hs : cs = digits ∨ cs = '+' :: digits) :
    group? cs = some (.index (decimalValue digits).toUInt64) := by
  have hq : quoted? cs = none := by
    unfold quoted?
    split
    case h_2 => rfl
    case h_1 cs =>
      rcases hs with rfl | hs
      case inl => exact absurd (hd '\'' List.mem_cons_self) (by decide)
      case inr => exact absurd (List.cons.inj hs).1 (by decide)
  rw [group?, hq, position?_of_digits hne hd hv hs]
  rfl

theorem group?_quoteKey (key : List Char) :
    group? (Text.trim (Segment.quoteKey key)) = some (.key (String.ofList key)) := by
  have hb : ¬Text.isBlank '\'' := by decide
  have hl : (Segment.quoteKey key).getLast? = some '\'' := List.getLast?_concat
  have ht : Text.trim (Segment.quoteKey key) = Segment.quoteKey key :=
    Text.trim_eq_self (by simp [quoteKey_eq, hb]) (by simp [hl, hb])
  rw [ht, quoteKey_eq, List.cons_append, group?_of_quotes, unescapeQuotes_escapeQuotes]

theorem group?_digits (i : UInt64) :
    group? (Text.trim (Nat.toDigits 10 i.toNat)) = some (.index i) := by
  have hb : ∀ c ∈ Nat.toDigits 10 i.toNat, ¬Text.isBlank c := fun c hc =>
    Token.not_isBlank_of_part (by simp [isIdentifierPart, Char.isAlphanum, isDigit_of_mem hc])
  have ht : Text.trim (Nat.toDigits 10 i.toNat) = Nat.toDigits 10 i.toNat :=
    Text.trim_eq_self (fun c hc => hb c (List.mem_of_head? hc))
      fun c hc => hb c (List.mem_of_getLast? hc)
  have hv : decimalValue (Nat.toDigits 10 i.toNat) = i.toNat := Nat.ofDigitChars_ten_toDigits
  have hl : decimalValue (Nat.toDigits 10 i.toNat) < Nat.pow 2 64 := by
    rw [hv]
    exact i.toNat_lt
  rw [ht, group?_of_digits Nat.toDigits_ne_nil (fun _ => isDigit_of_mem) hl (.inl rfl), hv]
  exact congrArg (some ∘ Segment.index) (UInt64.toNat.inj (by simp))

end Groups

variable {place : Place} {cs inner key : List Char} {s : Segment} {p : Path}

theorem exists_group (hs : s.Legible) (hk : ∀ k, s = .key k → ¬isIdentifier k.toList) :
    ∃ inner, s.chars = '[' :: (inner ++ [']']) ∧ ']' ∉ inner ∧ group? (Text.trim inner) = some s := by
  cases s
  case index i =>
    have hi : ']' ∉ Nat.toDigits 10 i.toNat := by
      intro hm
      exact absurd (isDigit_of_mem hm) (by decide)
    exact ⟨_, rfl, hi, group?_digits i⟩
  case key k =>
    have hg : group? (Text.trim (Segment.quoteKey k.toList)) = some (.key k) := by
      rw [group?_quoteKey, String.ofList_toList]
    exact ⟨_, if_neg (hk k rfl), not_mem_quoteKey hs, hg⟩

theorem spells_chars (hs : s.Legible) (hk : ∀ k, s = .key k → ¬isIdentifier k.toList)
    (hp : Spells .behind cs p) : Spells place (s.chars ++ cs) (s :: p) := by
  obtain ⟨inner, he, hi, hg⟩ := exists_group hs hk
  have hc : s.chars ++ cs = '[' :: (inner ++ ']' :: cs) := by simp [he]
  rw [hc]
  exact .group place hi hg hp

theorem spells_key {k : String} (hk : isIdentifier k.toList) (hp : Spells .behind cs p) :
    Spells .start (k.toList ++ cs) (.key k :: p) := by
  have h := Spells.name hk hp
  rwa [String.ofList_toList] at h

-- By induction on the path, whose segments are written one after the other: those that are identifiers
-- behind a dot, and the others in brackets.
theorem spells_flatMap_chars (hp : ∀ s ∈ p, s.Legible) : Spells .behind (p.flatMap Segment.chars) p := by
  induction p
  case nil => exact .done _
  case cons s p hi =>
    obtain ⟨hs, ht⟩ := List.forall_mem_cons.mp hp
    rw [List.flatMap_cons]
    obtain hk | ⟨k, rfl, hk⟩ := s.grouped_or_identifier
    case inl => exact spells_chars hs hk (hi ht)
    case inr =>
      have hn : k.toList ≠ [] := List.ne_nil_of_length_pos (length_pos_of_isIdentifier hk)
      rw [Segment.chars, if_pos hk, List.cons_append]
      exact .dot (by simp [hn]) (spells_key hk (hi ht))

theorem chars_cons (hk : ∀ k, s = .key k → ¬isIdentifier k.toList) (p : Path) :
    chars (s :: p) = s.chars ++ p.flatMap Segment.chars := by
  cases s
  case index => rfl
  case key => rw [chars, if_neg (hk _ rfl)]

theorem parse_text (hp : ∀ s ∈ p, s.Legible) : parse p.text = .ok p := by
  rw [parse_eq_ok_iff, text, String.toList_ofList]
  cases p
  case nil => exact .done _
  case cons s p =>
    obtain ⟨hs, ht⟩ := List.forall_mem_cons.mp hp
    obtain hk | ⟨k, rfl, hk⟩ := s.grouped_or_identifier
    case inl =>
      rw [chars_cons hk]
      exact spells_chars hs hk (spells_flatMap_chars ht)
    case inr =>
      rw [chars, if_pos hk]
      exact spells_key hk (spells_flatMap_chars ht)

section Parsed

theorem unescapeQuotes_subset (cs : List Char) : unescapeQuotes cs ⊆ cs := by
  fun_induction unescapeQuotes cs
  case case1 cs hi =>
    refine List.cons_subset.mpr ⟨by simp, fun c hc => ?_⟩
    exact List.mem_cons_of_mem _ (List.mem_cons_of_mem _ (hi hc))
  case case2 c cs _ hi => exact List.cons_subset_cons c hi
  case case3 => exact List.Subset.refl _

theorem quoted?_subset (h : quoted? cs = some key) : key ⊆ cs := by
  unfold quoted? at h
  split at h
  case h_2 => contradiction
  case h_1 cs =>
    split at h
    case isFalse => contradiction
    case isTrue =>
      obtain rfl := Option.some.inj h
      exact fun c hc => List.mem_cons_of_mem _ ((List.dropLast_sublist cs).subset hc)

theorem trim_subset (cs : List Char) : Text.trim cs ⊆ cs := by
  intro c hc
  have hc := (List.dropWhile_sublist _).subset (List.mem_reverse.mp hc)
  exact (List.dropWhile_sublist _).subset (List.mem_reverse.mp hc)

theorem legible_of_group? (hi : ']' ∉ inner) (h : group? (Text.trim inner) = some s) : s.Legible := by
  unfold group? at h
  split at h
  case h_1 key hq =>
    obtain rfl := Option.some.inj h
    rw [Segment.Legible, String.toList_ofList]
    exact fun hm => hi (trim_subset _ (quoted?_subset hq (unescapeQuotes_subset _ hm)))
  case h_2 =>
    obtain ⟨_, _, rfl⟩ := Option.map_eq_some_iff.mp h
    trivial

theorem legible_of_isIdentifier (h : isIdentifier key) : (Segment.key (String.ofList key)).Legible := by
  rw [Segment.Legible, String.toList_ofList]
  exact fun hm => absurd (isIdentifierPart_of_mem h _ hm) (by decide)

theorem legible_of_spells (h : Spells place cs p) : ∀ s ∈ p, s.Legible := by
  induction h
  case done => simp
  case group hn hs _ hi => exact List.forall_mem_cons.mpr ⟨legible_of_group? hn hs, hi⟩
  case name hk _ hi => exact List.forall_mem_cons.mpr ⟨legible_of_isIdentifier hk, hi⟩
  case dot hi => exact hi

theorem legible_of_parse {raw : String} (h : parse raw = .ok p) : ∀ s ∈ p, s.Legible :=
  legible_of_spells (parse_eq_ok_iff.mp h)

end Parsed

end Path

theorem Restores.path : Restores Decoded.path fun p => .string (Path.text p) where
  again {_ p} _ hp := by
    obtain ⟨raw, _, hp⟩ := bind_eq_ok_iff.mp hp
    have hs : ∀ s ∈ p, s.Legible := Path.legible_of_parse (mapError_eq_ok_iff.mp hp)
    exact mapError_eq_ok_iff.mpr (Path.parse_text hs)
  ne_null _ _ _ := Value.noConfusion

end BindingEngine
