import BindingEngine.Proofs.Path.RoundTrip

namespace BindingEngine.Path

variable {place : Place} {cs ds inner key name : List Char} {c : Char} {s : Segment} {p q : Path}

section Inversion

theorem cons_ne_name_append (hn : isIdentifier name) (hc : ¬isIdentifierPart c) :
    c :: cs ≠ name ++ ds := by
  intro he
  cases name
  case nil => contradiction
  case cons d name =>
    have hd := isIdentifierPart_of_mem hn d List.mem_cons_self
    exact hc ((List.cons.inj he).1 ▸ hd)

theorem Spells.of_group (hi : ']' ∉ inner) (h : Spells place ('[' :: (inner ++ ']' :: cs)) q) :
    ∃ s p, group? (Text.trim inner) = some s ∧ q = s :: p ∧ Spells .behind cs p := by
  generalize hc : '[' :: (inner ++ ']' :: cs) = text at h
  cases h
  case done => contradiction
  case group inner' cs' s p hi' hs h =>
    obtain ⟨rfl, rfl⟩ := append_cons_inj hi hi' (List.cons.inj hc).2
    exact ⟨s, p, hs, rfl, h⟩
  case name hn _ => exact absurd hc (cons_ne_name_append hn (by decide))
  case dot => exact absurd (List.cons.inj hc).1 (by decide)

theorem Spells.of_name (hn : isIdentifier name) (hc : ∀ c ∈ cs.head?, ¬isKeyPart c)
    (h : Spells .start (name ++ cs) q) :
    ∃ p, q = .key (String.ofList name) :: p ∧ Spells .behind cs p := by
  have hs : Path.segments ((name ++ cs).length + 1) 0 .start (name ++ cs) = .ok q :=
    h.segments (Nat.le_succ _)
  rw [segments_name hn hc] at hs
  obtain ⟨p, hp, rfl⟩ := map_eq_ok_iff.mp hs
  exact ⟨p, rfl, spells_of_segments hp (by simp)⟩

theorem Spells.of_dot (h : Spells .behind ('.' :: cs) q) : Spells .start cs q := by
  generalize hc : '.' :: cs = text at h
  cases h
  case done => contradiction
  case group => exact absurd (List.cons.inj hc).1 (by decide)
  case dot h => exact (List.cons.inj hc).2 ▸ h

end Inversion

section Quoted

theorem escapeQuotes_cons (c : Char) (key : List Char) :
    escapeQuotes (c :: key) = (if c = '\'' then ['\\', '\''] else [c]) ++ escapeQuotes key :=
  List.flatMap_cons

theorem escapeQuotes_of_append {xs ys : List Char} (h : escapeQuotes key = xs ++ c :: ys)
    (hc : c ≠ '\\') : ∃ rest, ys = escapeQuotes rest := by
  induction key generalizing xs
  case nil =>
    rw [escapeQuotes, List.flatMap_nil] at h
    exact absurd h.symm (by simp)
  case cons d key hi =>
    rw [escapeQuotes_cons] at h
    split at h
    case isTrue =>
      rcases xs with _ | ⟨_, _ | ⟨_, xs⟩⟩
      case nil => exact absurd (List.cons.inj h).1.symm hc
      case cons.nil => exact ⟨key, ((List.cons.inj (List.cons.inj h).2).2).symm⟩
      case cons.cons => exact hi (List.cons.inj (List.cons.inj h).2).2
    case isFalse =>
      cases xs
      case nil => exact ⟨key, (List.cons.inj h).2.symm⟩
      case cons => exact hi (List.cons.inj h).2

theorem dropWhile_escapeQuotes (key : List Char) :
    (escapeQuotes key).dropWhile Text.isBlank = escapeQuotes (key.dropWhile Text.isBlank) := by
  induction key
  case nil => rfl
  case cons c key hi =>
    rw [escapeQuotes_cons, List.dropWhile_cons]
    by_cases hb : Text.isBlank c
    case pos =>
      have hq : c ≠ '\'' := by
        rintro rfl
        exact absurd hb (by decide)
      rw [if_neg hq, if_pos hb, ← hi]
      exact List.dropWhile_cons_of_pos hb
    case neg =>
      rw [if_neg hb, escapeQuotes_cons]
      split
      case isTrue => exact List.dropWhile_cons_of_neg (by decide)
      case isFalse => exact List.dropWhile_cons_of_neg hb

theorem trim_open (key : List Char) : Text.trim (escapeQuotes key ++ ['\'']) =
    escapeQuotes (key.dropWhile Text.isBlank) ++ ['\''] := by
  have hb : ¬Text.isBlank '\'' := by decide
  have hd : (escapeQuotes key ++ ['\'']).dropWhile Text.isBlank =
      escapeQuotes (key.dropWhile Text.isBlank) ++ ['\''] := by
    rw [List.dropWhile_append, dropWhile_escapeQuotes, List.dropWhile_cons_of_neg hb]
    split
    case isTrue he => rw [List.isEmpty_iff.mp he, List.nil_append]
    case isFalse => rfl
  rw [Text.trim, hd, List.reverse_append, List.reverse_singleton, List.singleton_append,
    List.dropWhile_cons_of_neg hb, List.reverse_cons, List.reverse_reverse]

theorem position?_eq_none (h : '\'' ∈ cs) : position? cs = none := by
  have hd (ds : List Char) (hm : '\'' ∈ ds) : ds.all Char.isDigit = false :=
    List.all_eq_false.mpr ⟨'\'', hm, by decide⟩
  unfold position?
  split
  case h_1 ds => simp [hd ds (by simpa using h)]
  case h_2 => simp [hd cs h]

theorem group?_open (key : List Char) : group? (Text.trim (escapeQuotes key ++ ['\''])) = none := by
  have hq (key : List Char) : quoted? (escapeQuotes key ++ ['\'']) = none := by
    cases he : escapeQuotes key
    case nil => rfl
    case cons c cs =>
      have hc : c ≠ '\'' := by
        rintro rfl
        exact head?_escapeQuotes_ne (by rw [he]; rfl)
      unfold quoted?
      split
      case h_1 hs => exact absurd (List.cons.inj hs).1 hc
      case h_2 => rfl
  rw [trim_open, group?, hq, position?_eq_none (by simp)]
  rfl

theorem of_open_eq_cons {xs : List Char} (h : escapeQuotes key ++ '\'' :: cs = c :: xs)
    (hq : c ≠ '\'') (hb : c ≠ '\\') : ∃ rest, xs = escapeQuotes rest ++ '\'' :: cs := by
  cases hk : escapeQuotes key
  case nil =>
    rw [hk, List.nil_append] at h
    exact absurd (List.cons.inj h).1.symm hq
  case cons d ys =>
    rw [hk, List.cons_append] at h
    obtain ⟨rfl, rfl⟩ := List.cons.inj h
    obtain ⟨rest, rfl⟩ := escapeQuotes_of_append (hk.trans (List.nil_append _).symm) hb
    exact ⟨rest, rfl⟩

-- By induction on the way in which the text is read: neither a group nor a name ends behind the quote.
theorem not_spells_open (key cs : List Char) (p : Path) :
    ¬Spells place (escapeQuotes key ++ '\'' :: ']' :: cs) p := by
  intro h
  generalize hc : escapeQuotes key ++ '\'' :: ']' :: cs = text at h
  induction h generalizing key
  case done => simp at hc
  case group inner ds s p place hi hs h ih =>
    obtain ⟨rest, hr⟩ := of_open_eq_cons hc (by decide) (by decide)
    by_cases hb : ']' ∈ escapeQuotes rest
    case pos =>
      obtain ⟨xs, ys, he, hn⟩ := List.eq_append_cons_of_mem hb
      obtain ⟨rest', rfl⟩ := escapeQuotes_of_append he (by decide)
      rw [he, List.append_assoc] at hr
      exact ih rest' (append_cons_inj hi hn hr).2.symm
    case neg =>
      have hn : ']' ∉ escapeQuotes rest ++ ['\''] := by simp [hb]
      rw [List.append_cons (escapeQuotes rest)] at hr
      rw [(append_cons_inj hi hn hr).1, group?_open] at hs
      contradiction
  case name name ds p hn h ih =>
    rcases List.append_eq_append_iff.mp hc with ⟨xs, rfl, hx⟩ | ⟨xs, hx, rfl⟩
    case inl =>
      cases xs
      case nil => exact ih [] hx
      case cons c xs =>
        obtain ⟨rfl, -⟩ := List.cons.inj hx
        exact absurd (isIdentifierPart_of_mem hn '\'' (by simp)) (by decide)
    case inr =>
      have hne : name ≠ [] := List.ne_nil_of_length_pos (length_pos_of_isIdentifier hn)
      have he := List.dropLast_concat_getLast hne
      have hb : name.getLast hne ≠ '\\' := fun hb =>
        absurd (isIdentifierPart_of_mem hn '\\' (hb ▸ List.getLast_mem hne)) (by decide)
      rw [← he, List.append_assoc] at hx
      obtain ⟨rest, rfl⟩ := escapeQuotes_of_append hx hb
      exact ih rest rfl
  case dot ds p hn h ih =>
    obtain ⟨rest, rfl⟩ := of_open_eq_cons hc (by decide) (by decide)
    exact ih rest rfl

end Quoted

theorem mem_escapeQuotes (h : c ∈ key) : c ∈ escapeQuotes key := by
  refine List.mem_flatMap.mpr ⟨c, h, ?_⟩
  split <;> simp_all

theorem not_spells_illegible (hs : ¬s.Legible) : ¬Spells place (s.chars ++ cs) q := by
  intro h
  cases s
  case index => exact hs trivial
  case key k =>
    have hm : ']' ∈ k.toList := Decidable.not_not.mp hs
    have hk : ¬isIdentifier k.toList := fun hk => absurd (isIdentifierPart_of_mem hk _ hm) (by decide)
    obtain ⟨xs, ys, he, hn⟩ := List.eq_append_cons_of_mem (mem_escapeQuotes hm)
    obtain ⟨rest, rfl⟩ := escapeQuotes_of_append he (by decide)
    have hc : (Segment.key k).chars ++ cs =
        '[' :: ('\'' :: xs ++ ']' :: (escapeQuotes rest ++ '\'' :: ']' :: cs)) := by
      rw [Segment.chars, if_neg hk, quoteKey_eq, he]
      simp
    have hi : ']' ∉ '\'' :: xs := by simp [hn]
    rw [hc] at h
    obtain ⟨_, p, _, _, h⟩ := h.of_group hi
    exact not_spells_open rest cs p h

theorem head?_chars (p : Path) : ∀ c ∈ (p.flatMap Segment.chars).head?, ¬isKeyPart c := by
  cases p
  case nil => simp
  case cons s p =>
    have hd : ¬isKeyPart '.' := by decide
    have hb : ¬isKeyPart '[' := by decide
    cases s
    case index => simp [Segment.chars, hb]
    case key k =>
      rw [List.flatMap_cons, Segment.chars]
      split <;> simp [hd, hb]

theorem Spells.of_chars (hk : ∀ k, s = .key k → ¬isIdentifier k.toList)
    (h : Spells place (s.chars ++ cs) q) : s.Legible ∧ ∃ p, Spells .behind cs p := by
  have hs : s.Legible := Classical.byContradiction fun hs => not_spells_illegible hs h
  obtain ⟨inner, he, hi, _⟩ := exists_group hs hk
  have hc : s.chars ++ cs = '[' :: (inner ++ ']' :: cs) := by simp [he]
  rw [hc] at h
  obtain ⟨_, p, _, _, h⟩ := h.of_group hi
  exact ⟨hs, p, h⟩

theorem Spells.of_key {k : String} (hk : isIdentifier k.toList)
    (h : Spells .start (k.toList ++ p.flatMap Segment.chars) q) :
    (Segment.key k).Legible ∧ ∃ q, Spells .behind (p.flatMap Segment.chars) q := by
  have hs := legible_of_isIdentifier hk
  rw [String.ofList_toList] at hs
  obtain ⟨q, _, h⟩ := h.of_name hk (head?_chars p)
  exact ⟨hs, q, h⟩

-- By induction on the path, up to the first segment that is not legible.
theorem legible_of_spells_chars (h : Spells .behind (p.flatMap Segment.chars) q) :
    ∀ s ∈ p, s.Legible := by
  induction p generalizing q
  case nil => simp
  case cons s p hi =>
    rw [List.flatMap_cons] at h
    suffices hs : s.Legible ∧ ∃ q, Spells .behind (p.flatMap Segment.chars) q by
      obtain ⟨hs, q, h⟩ := hs
      exact List.forall_mem_cons.mpr ⟨hs, hi h⟩
    obtain hk | ⟨k, rfl, hk⟩ := s.grouped_or_identifier
    case inl => exact h.of_chars hk
    case inr =>
      rw [Segment.chars, if_pos hk, List.cons_append] at h
      exact h.of_dot.of_key hk

theorem legible_of_parse_text (h : parse p.text = .ok q) : ∀ s ∈ p, s.Legible := by
  rw [parse_eq_ok_iff, text, String.toList_ofList] at h
  cases p
  case nil => simp
  case cons s p =>
    suffices hs : s.Legible ∧ ∃ q, Spells .behind (p.flatMap Segment.chars) q by
      obtain ⟨hs, q, h⟩ := hs
      exact List.forall_mem_cons.mpr ⟨hs, legible_of_spells_chars h⟩
    obtain hk | ⟨k, rfl, hk⟩ := s.grouped_or_identifier
    case inl =>
      rw [chars_cons hk] at h
      exact h.of_chars hk
    case inr =>
      rw [chars, if_pos hk] at h
      exact h.of_key hk

-- A path is read again from its text if no key in it has a closing bracket, and else it is not read at
-- all. The same holds for its form in a document.
theorem read_back_iff (p q : Path) :
    (parse p.text = .ok q ↔ q = p ∧ ∀ s ∈ p, s.Legible) ∧
    (Decoded.path (.string p.text) = .ok q ↔ q = p ∧ ∀ s ∈ p, s.Legible) := by
  have hp : parse p.text = .ok q ↔ q = p ∧ ∀ s ∈ p, s.Legible := by
    constructor
    case mp =>
      intro h
      have hs := legible_of_parse_text h
      exact ⟨(Except.ok.inj ((parse_text hs).symm.trans h)).symm, hs⟩
    case mpr =>
      rintro ⟨rfl, hs⟩
      exact parse_text hs
  exact ⟨hp, mapError_eq_ok_iff.trans hp⟩

theorem exists_not_read_back :
    parse (text [.key "a]b"]) = .error ⟨"['a]b']", 1, .noIndexOrKey⟩ ∧
    Decoded.path (.string (text [.key "a]b"])) = .error (.path ⟨"['a]b']", 1, .noIndexOrKey⟩) :=
  ⟨rfl, rfl⟩

end BindingEngine.Path
