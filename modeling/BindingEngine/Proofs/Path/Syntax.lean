import BindingEngine.Proofs.Path.Legibility

namespace BindingEngine.Path

inductive Manner | strict | free

-- What may stand between brackets, with blanks around it:
-- 1. the digits of a position
-- 2. a key between quotes, in which a quote may stand behind a backslash
inductive Inside (m : Manner) : List Char → Segment → Prop
  | index {before text digits after : List Char} :
    (∀ c ∈ before, Text.isBlank c) → (∀ c ∈ after, Text.isBlank c) →
    (text = digits ∨ m = .free ∧ text = '+' :: digits) →
    digits ≠ [] → (∀ c ∈ digits, c.isDigit) → decimalValue digits < Nat.pow 2 64 →
    Inside m (before ++ (text ++ after)) (.index (decimalValue digits).toUInt64)
  | key {before key after : List Char} :
    (∀ c ∈ before, Text.isBlank c) → (∀ c ∈ after, Text.isBlank c) → ']' ∉ key →
    Inside m (before ++ ('\'' :: (key ++ ['\'']) ++ after)) (.key (String.ofList (unescapeQuotes key)))

-- The texts of a path. Behind a name or a group there is a dot before a name, and none before a group.
inductive Written (m : Manner) : Place → List Char → Path → Prop
  | done (place : Place) : Written m place [] []
  | name {name cs : List Char} {p : Path} : isIdentifier name → Written m .behind cs p →
    Written m .start (name ++ cs) (.key (String.ofList name) :: p)
  | field {name cs : List Char} {p : Path} : isIdentifier name → Written m .behind cs p →
    Written m .behind ('.' :: (name ++ cs)) (.key (String.ofList name) :: p)
  | group {inner cs : List Char} {s : Segment} {p : Path} (place : Place) : Inside m inner s →
    Written m .behind cs p → Written m place ('[' :: (inner ++ ']' :: cs)) (s :: p)
  | dotted {inner cs : List Char} {s : Segment} {p : Path} : m = .free → Inside m inner s →
    Written m .behind cs p → Written m .behind ('.' :: '[' :: (inner ++ ']' :: cs)) (s :: p)

-- What is due where a liberty is taken: a name, not a bracket, or a digit, not a plus sign.
inductive Liberty : List Char → Prop
  | dot (rest : List Char) : Liberty ('.' :: '[' :: rest)
  | sign {blanks : List Char} (rest : List Char) : (∀ c ∈ blanks, Text.isBlank c) →
    Liberty ('[' :: (blanks ++ '+' :: rest))

-- A liberty is taken behind a part that is a path in itself.
def TakesLiberty (place : Place) (cs : List Char) : Prop :=
  ∃ front rest p, cs = front ++ rest ∧ Written .strict place front p ∧ Liberty rest

variable {m : Manner} {place : Place} {cs ds inner front rest name digits : List Char} {s : Segment}
variable {p q : Path}

section Inside

theorem eq_sign_or_isDigit (hs : cs = digits ∨ cs = '+' :: digits) (hd : ∀ c ∈ digits, c.isDigit) :
    ∀ c ∈ cs, c = '+' ∨ c.isDigit := by
  rcases hs with rfl | rfl
  case inl => exact fun c hc => .inr (hd c hc)
  case inr => exact List.forall_mem_cons.mpr ⟨.inl rfl, fun c hc => .inr (hd c hc)⟩

theorem not_isBlank_of_sign_or_isDigit {c : Char} (h : c = '+' ∨ c.isDigit) : ¬Text.isBlank c := by
  rcases h with rfl | hd
  case inl => decide
  case inr => exact Token.not_isBlank_of_part (by simp [isIdentifierPart, Char.isAlphanum, hd])

theorem Inside.group? (h : Inside m inner s) : Path.group? (Text.trim inner) = some s := by
  cases h
  case key before key after hb ha _ =>
    have hq : ¬Text.isBlank '\'' := by decide
    have hl : ('\'' :: (key ++ ['\''])).getLast? = some '\'' :=
      List.getLast?_concat (l := '\'' :: key)
    rw [Text.trim_padded hb ha (by simp) (by simp [hq]) (by simp [hl, hq]), group?_of_quotes]
  case index before text digits after hb ha hs hne hd hv =>
    have hs := hs.imp_right And.right
    have hn (c : Char) (hc : c ∈ text) := not_isBlank_of_sign_or_isDigit (eq_sign_or_isDigit hs hd c hc)
    have hne' : text ≠ [] := by rcases hs with rfl | rfl <;> simp [hne]
    rw [Text.trim_padded hb ha hne' (fun c hc => hn c (List.mem_of_head? hc))
      fun c hc => hn c (List.mem_of_getLast? hc)]
    exact group?_of_digits hne hd hv hs

theorem Inside.not_mem_close (h : Inside m inner s) : ']' ∉ inner := by
  have hb {cs : List Char} (h : ∀ c ∈ cs, Text.isBlank c) : ']' ∉ cs := fun hm =>
    absurd (h ']' hm) (by decide)
  cases h
  case key hb' ha hk => simp [hb hb', hb ha, hk]
  case index text digits _ hb' ha hs _ hd _ =>
    have ht : ']' ∉ text := fun hm =>
      absurd (eq_sign_or_isDigit (hs.imp_right And.right) hd _ hm) (by decide)
    simp [hb hb', hb ha, ht]

theorem inside_of_group? (hi : ']' ∉ inner) (h : Path.group? (Text.trim inner) = some s) :
    Inside .free inner s := by
  obtain ⟨before, after, hb, ha, he⟩ := Text.exists_trim inner
  rw [he] at hi ⊢
  rcases group?_cases h with ⟨key, ht, rfl⟩ | ⟨digits, hne, hd, hv, rfl, ht⟩
  case inl =>
    rw [ht] at hi ⊢
    exact .key hb ha fun hm => hi (by simp [hm])
  case inr => exact .index hb ha (ht.imp_right fun ht => ⟨rfl, ht⟩) hne hd hv

theorem Inside.strict_or_sign (h : Inside m inner s) : Inside .strict inner s ∨
    ∃ blanks rest, (∀ c ∈ blanks, Text.isBlank c) ∧ inner = blanks ++ '+' :: rest := by
  cases h
  case key hb ha hk => exact .inl (.key hb ha hk)
  case index before text digits after hb ha hs hne hd hv =>
    rcases hs with rfl | ⟨-, rfl⟩
    case inl => exact .inl (.index hb ha (.inl rfl) hne hd hv)
    case inr => exact .inr ⟨before, digits ++ after, hb, rfl⟩

end Inside

section Reading

theorem Written.spells (h : Written m place cs p) : Spells place cs p := by
  induction h
  case done => exact .done _
  case name hn _ hi => exact .name hn hi
  case field hn _ hi =>
    have hl := List.ne_nil_of_length_pos (length_pos_of_isIdentifier hn)
    exact .dot (by simp [hl]) (.name hn hi)
  case group hs _ hi => exact .group _ hs.not_mem_close hs.group? hi
  case dotted hs _ hi => exact .dot (by simp) (.group .start hs.not_mem_close hs.group? hi)

theorem Written.dot (hc : cs ≠ []) (h : Written .free .start cs p) :
    Written .free .behind ('.' :: cs) p := by
  cases h
  case done => exact absurd rfl hc
  case name hn h => exact .field hn h
  case group hs h => exact .dotted rfl hs h

theorem Written.of_spells (h : Spells place cs p) : Written .free place cs p := by
  induction h
  case done => exact .done _
  case group hn hs _ hi => exact .group _ (inside_of_group? hn hs) hi
  case name hn _ hi => exact .name hn hi
  case dot hc _ hi => exact .dot hc hi

theorem Written.free (h : Written m place cs p) : Written .free place cs p := .of_spells h.spells

end Reading

section Inversion

theorem Written.head (h : Written m .behind cs p) : ∀ c ∈ cs.head?, ¬isKeyPart c := h.spells.head

theorem name_append_inj {name' cs' : List Char} (hn : isIdentifier name) (hn' : isIdentifier name')
    (hc : ∀ c ∈ cs.head?, ¬isKeyPart c) (hc' : ∀ c ∈ cs'.head?, ¬isKeyPart c)
    (h : name ++ cs = name' ++ cs') : cs = cs' := by
  have hd {name cs : List Char} (hn : isIdentifier name) (hc : ∀ c ∈ cs.head?, ¬isKeyPart c) :
      (name ++ cs).dropWhile isKeyPart = cs :=
    dropWhile_append_of_head (fun c hc => isKeyPart_of_part (isIdentifierPart_of_mem hn c hc)) hc
  rw [← hd hn hc, h, hd hn' hc']

theorem Written.of_name (hn : isIdentifier name) (hc : ∀ c ∈ cs.head?, ¬isKeyPart c)
    (h : Written m .start (name ++ cs) p) : ∃ q, Written m .behind cs q := by
  generalize ht : name ++ cs = text at h
  cases h
  case done =>
    obtain ⟨rfl, -⟩ := List.append_eq_nil_iff.mp ht
    contradiction
  case name hn' h => exact ⟨_, name_append_inj hn hn' hc h.head ht ▸ h⟩
  case group => exact absurd ht.symm (cons_ne_name_append hn (by decide))

theorem Written.of_field (hn : isIdentifier name) (hc : ∀ c ∈ cs.head?, ¬isKeyPart c)
    (h : Written m .behind ('.' :: (name ++ cs)) p) : ∃ q, Written m .behind cs q := by
  generalize ht : '.' :: (name ++ cs) = text at h
  cases h
  case done => contradiction
  case field hn' h => exact ⟨_, name_append_inj hn hn' hc h.head (List.cons.inj ht).2 ▸ h⟩
  case group => exact absurd (List.cons.inj ht).1 (by decide)
  case dotted => exact absurd (List.cons.inj ht).2.symm (cons_ne_name_append hn (by decide))

theorem Written.of_group (hi : ']' ∉ inner) (h : Written m place ('[' :: (inner ++ ']' :: cs)) p) :
    ∃ q, Written m .behind cs q := by
  generalize ht : '[' :: (inner ++ ']' :: cs) = text at h
  cases h
  case done => contradiction
  case name hn _ => exact absurd ht (cons_ne_name_append hn (by decide))
  case field => exact absurd (List.cons.inj ht).1 (by decide)
  case group hs h =>
    obtain ⟨-, rfl⟩ := append_cons_inj hi hs.not_mem_close (List.cons.inj ht).2
    exact ⟨_, h⟩
  case dotted => exact absurd (List.cons.inj ht).1 (by decide)

end Inversion

section Liberties

theorem Liberty.head (h : Liberty rest) : ∀ c ∈ rest.head?, ¬isKeyPart c := by
  cases h <;> simp [isKeyPart]

theorem Inside.dropWhile_ne (h : Inside .strict inner s) :
    (inner ++ ds).dropWhile Text.isBlank ≠ '+' :: rest := by
  cases h
  case key hb _ _ =>
    rw [List.append_assoc, List.dropWhile_append_of_pos hb]
    exact fun he => absurd (List.cons.inj he).1 (by decide)
  case index text digits after hb _ hs hne hd _ =>
    rcases hs with rfl | ⟨hs, -⟩
    case inr => contradiction
    case inl =>
      obtain ⟨c, digits, rfl⟩ := List.exists_cons_of_ne_nil hne
      have hc : c.isDigit := hd c List.mem_cons_self
      have hn : ¬Text.isBlank c := not_isBlank_of_sign_or_isDigit (.inr hc)
      rw [List.append_assoc, List.dropWhile_append_of_pos hb]
      intro he
      obtain rfl : c = '+' := (List.cons.inj ((List.dropWhile_cons_of_neg hn).symm.trans he)).1
      contradiction

theorem Liberty.not_written (hl : Liberty rest) : ¬Written .strict place rest p := by
  intro h
  generalize ht : rest = text at h
  cases hl
  case dot rest =>
    cases h
    case done => contradiction
    case name hn _ => exact absurd ht (cons_ne_name_append hn (by decide))
    case field hn _ => exact absurd (List.cons.inj ht).2 (cons_ne_name_append hn (by decide))
    case group => exact absurd (List.cons.inj ht).1 (by decide)
    case dotted => contradiction
  case sign blanks rest hb =>
    cases h
    case done => contradiction
    case name hn _ => exact absurd ht (cons_ne_name_append hn (by decide))
    case field => exact absurd (List.cons.inj ht).1 (by decide)
    case dotted => contradiction
    case group hs _ =>
      have hd : (blanks ++ '+' :: rest).dropWhile Text.isBlank = '+' :: rest := by
        rw [List.dropWhile_append_of_pos hb]
        exact List.dropWhile_cons_of_neg (by decide)
      exact hs.dropWhile_ne ((List.cons.inj ht).2 ▸ hd)

-- By induction on the part in front of the liberty, behind which the text goes on as a path.
theorem Written.not_takesLiberty (h : Written .strict place cs p) : ¬TakesLiberty place cs := by
  rintro ⟨front, rest, q, rfl, hf, hl⟩
  have hc {cs : List Char} {q : Path} (h : Written .strict .behind cs q) :
      ∀ c ∈ (cs ++ rest).head?, ¬isKeyPart c := by
    cases cs
    case nil => exact hl.head
    case cons => exact h.head
  induction hf generalizing p
  case done => exact hl.not_written h
  case name name cs _ hn hf hi =>
    rw [List.append_assoc] at h
    obtain ⟨q, h⟩ := h.of_name hn (hc hf)
    exact hi h
  case field name cs _ hn hf hi =>
    rw [List.cons_append, List.append_assoc] at h
    obtain ⟨q, h⟩ := h.of_field hn (hc hf)
    exact hi h
  case group inner cs s _ _ hs hf hi =>
    rw [List.cons_append, List.append_assoc, List.cons_append] at h
    obtain ⟨q, h⟩ := h.of_group hs.not_mem_close
    exact hi h
  case dotted => contradiction

-- By induction on the way the text is written, up to the first liberty.
theorem Written.strict_or_takesLiberty (h : Written m place cs p) :
    Written .strict place cs p ∨ TakesLiberty place cs := by
  induction h
  case done => exact .inl (.done _)
  case name name _ _ hn _ hi =>
    rcases hi with h | ⟨front, rest, q, rfl, hf, hl⟩
    case inl => exact .inl (.name hn h)
    case inr => exact .inr ⟨name ++ front, rest, _, by simp, .name hn hf, hl⟩
  case field name _ _ hn _ hi =>
    rcases hi with h | ⟨front, rest, q, rfl, hf, hl⟩
    case inl => exact .inl (.field hn h)
    case inr => exact .inr ⟨'.' :: (name ++ front), rest, _, by simp, .field hn hf, hl⟩
  case dotted inner cs _ _ _ _ _ _ =>
    exact .inr ⟨[], _, [], rfl, .done _, .dot (inner ++ ']' :: cs)⟩
  case group inner cs s p place hs _ hi =>
    rcases hs.strict_or_sign with hs | ⟨blanks, rest, hb, rfl⟩
    case inr => exact .inr ⟨[], _, [], by simp, .done _, .sign (rest ++ ']' :: cs) hb⟩
    case inl =>
      rcases hi with h | ⟨front, rest, q, rfl, hf, hl⟩
      case inl => exact .inl (.group place hs h)
      case inr => exact .inr ⟨'[' :: (inner ++ ']' :: front), rest, _, by simp, .group place hs hf, hl⟩

end Liberties

-- A text is read as a path exactly if it is written as that path in the free manner, and it is written in
-- the strict manner exactly if it takes no liberty.
theorem parse_iff_written (raw : String) (p : Path) :
    (parse raw = .ok p ↔ Written .free .start raw.toList p) ∧
    (Written .strict .start raw.toList p ↔ parse raw = .ok p ∧ ¬TakesLiberty .start raw.toList) := by
  have hp : parse raw = .ok p ↔ Written .free .start raw.toList p :=
    parse_eq_ok_iff.trans ⟨.of_spells, Written.spells⟩
  refine ⟨hp, ?_, ?_⟩
  case refine_1 => exact fun h => ⟨hp.mpr h.free, h.not_takesLiberty⟩
  case refine_2 => exact fun h => (hp.mp h.1).strict_or_takesLiberty.resolve_right h.2

-- A dot before a bracket, and a plus sign, are read where neither is written.
theorem exists_liberty :
    (parse "a.[0]" = .ok [.key "a", .index 0] ∧ ∀ p, ¬Written .strict .start "a.[0]".toList p) ∧
    parse "[+5]" = .ok [.index 5] ∧ ∀ p, ¬Written .strict .start "[+5]".toList p := by
  have hn : isIdentifier ['a'] := by decide
  refine ⟨⟨rfl, fun p h => h.not_takesLiberty ?_⟩, rfl, fun p h => h.not_takesLiberty ?_⟩
  case refine_1 => exact ⟨['a'], _, _, rfl, .name hn (.done _), .dot ['0', ']']⟩
  case refine_2 =>
    have hs : Liberty ('[' :: ([] ++ '+' :: ['5', ']'])) := .sign ['5', ']'] (by simp)
    exact ⟨[], _, _, rfl, .done _, hs⟩

end BindingEngine.Path
