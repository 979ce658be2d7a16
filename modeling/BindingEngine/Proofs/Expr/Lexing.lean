import BindingEngine.Proofs.Expr.Rendering

namespace BindingEngine

section

variable {α : Type} {p : α → Bool} {xs ys : List α}

theorem takeWhile_append_of_head (hx : ∀ x ∈ xs, p x) (hy : ∀ y ∈ ys.head?, ¬p y) :
    (xs ++ ys).takeWhile p = xs := by
  rw [List.takeWhile_append_of_pos hx]
  cases ys with
  | nil => simp
  | cons y ys => simp [hy y rfl]

theorem dropWhile_append_of_head (hx : ∀ x ∈ xs, p x) (hy : ∀ y ∈ ys.head?, ¬p y) :
    (xs ++ ys).dropWhile p = ys := by
  rw [List.dropWhile_append_of_pos hx]
  cases ys with
  | nil => rfl
  | cons y ys => simp [hy y rfl]

variable {x : α} {xs' ys' : List α}

theorem append_of_not_mem (hx : x ∉ xs) (h : xs ++ ys = xs' ++ x :: ys') :
    ∃ zs, xs' = xs ++ zs ∧ ys = zs ++ x :: ys' := by
  rcases List.append_eq_append_iff.mp h with h | ⟨zs, rfl, hz⟩
  case inl => exact h
  case inr =>
    cases zs
    case nil => exact ⟨[], by simp, hz.symm⟩
    case cons z zs =>
      obtain ⟨rfl, -⟩ := List.cons.inj hz
      simp at hx

theorem append_cons_cases (hx : x ∉ xs) (h : xs ++ x :: ys = xs' ++ x :: ys') :
    xs' = xs ∧ ys' = ys ∨ ∃ zs, xs' = xs ++ x :: zs ∧ ys = zs ++ x :: ys' := by
  obtain ⟨zs, rfl, hz⟩ := append_of_not_mem hx h
  cases zs
  case nil => exact .inl ⟨List.append_nil xs, (List.cons.inj hz).2.symm⟩
  case cons z zs =>
    obtain ⟨rfl, hys⟩ := List.cons.inj hz
    exact .inr ⟨zs, rfl, hys⟩

theorem append_cons_inj (hx : x ∉ xs) (hx' : x ∉ xs') (h : xs ++ x :: ys = xs' ++ x :: ys') :
    xs = xs' ∧ ys = ys' := by
  rcases append_cons_cases hx h with ⟨rfl, rfl⟩ | ⟨zs, rfl, _⟩
  case inl => exact ⟨rfl, rfl⟩
  case inr => simp at hx'

theorem append_cons_inj_right (hy : x ∉ ys) (hy' : x ∉ ys') (h : xs ++ x :: ys = xs' ++ x :: ys') :
    xs = xs' ∧ ys = ys' := by
  have hr : ys.reverse ++ x :: xs.reverse = ys'.reverse ++ x :: xs'.reverse := by
    simpa using congrArg List.reverse h
  obtain ⟨hs, hp⟩ := append_cons_inj (by simpa using hy) (by simpa using hy') hr
  exact ⟨List.reverse_inj.mp hp, List.reverse_inj.mp hs⟩

end

namespace Token

def Legible : Token → Prop
  | identifier name => isIdentifier name.toList ∧ name ∉ ["true", "false", "null"]
  | int i           => 0 ≤ i
  | double _        => False
  | openBinding     => False
  | closeBrace      => False
  | _               => True

theorem legible_word {name : String} (h : isIdentifier name.toList) : (word name).Legible := by
  unfold word
  split <;> try trivial
  split <;> try trivial
  split <;> try trivial
  exact ⟨h, by simp_all⟩

theorem symbol?_eq_none {c : Char} (hc : isIdentifierPart c ∨ c = '\'') (cs : List Char) :
    symbol? (c :: cs) = none := by
  unfold symbol?
  split
  case h_24 => rfl
  all_goals
    injections
    subst_vars
    exact absurd hc (by decide)

theorem isIdentifierPart_of_start {c : Char} (hc : isIdentifierStart c) : isIdentifierPart c := by
  rcases Bool.or_eq_true_iff.mp hc with ha | hu
  · simp [isIdentifierPart, Char.isAlphanum, ha]
  · simp [isIdentifierPart, hu]

theorem not_isDigit_of_start {c : Char} (hc : isIdentifierStart c) : ¬c.isDigit := by
  unfold isIdentifierStart Char.isAlpha Char.isUpper Char.isLower at hc
  simp only [Bool.or_eq_true, Bool.and_eq_true, decide_eq_true_eq] at hc
  simp only [Char.isDigit, Bool.and_eq_true, decide_eq_true_eq]
  rcases hc with hc | rfl
  · grind
  · decide

theorem read_word {name rest : List Char} (offset : Nat) (hn : isIdentifier name)
    (hr : ∀ c ∈ rest.head?, ¬isIdentifierPart c) :
    read offset (name ++ rest) = .ok (word (String.ofList name), name.length) := by
  cases name with
  | nil => simp [isIdentifier] at hn
  | cons c cs =>
    simp only [isIdentifier, Bool.and_eq_true, List.all_eq_true] at hn
    obtain ⟨hc, hcs⟩ := hn
    have hp := isIdentifierPart_of_start hc
    have hs : symbol? (c :: (cs ++ rest)) = none := symbol?_eq_none (.inl hp) _
    have hq : c ≠ '\'' := by
      rintro rfl
      exact absurd hc (by decide)
    simp [read, hs, hq, not_isDigit_of_start hc, hc, takeWhile_append_of_head hcs hr]

theorem stringBody?_escaped (cs rest : List Char) :
    stringBody? (escaped cs ++ '\'' :: rest) = some (cs, (escaped cs).length + 1) := by
  induction cs with
  | nil => rfl
  | cons c cs ih =>
    by_cases hc : c = '\\' ∨ c = '\''
    case pos => rcases hc with rfl | rfl <;> simp_all [escaped, stringBody?]
    case neg => simp_all [escaped, stringBody?]

theorem numberText_append {digits rest : List Char} (hd : ∀ c ∈ digits, c.isDigit)
    (hr : ∀ c ∈ rest.head?, ¬(c.isDigit || c = '.')) :
    numberText (digits ++ rest) = (digits, none) := by
  have hn : ∀ c ∈ rest.head?, ¬c.isDigit := fun c hc hd => hr c hc (by simp [hd])
  have ht : (digits ++ rest).takeWhile Char.isDigit = digits := takeWhile_append_of_head hd hn
  simp only [numberText, ht, List.drop_left]
  split
  case h_1 rest => simp at hr
  case h_2 => rfl

theorem numberText_decimal {whole fraction rest : List Char} (hw : ∀ c ∈ whole, c.isDigit)
    (hf : ∀ c ∈ fraction, c.isDigit) (hn : fraction ≠ []) (hr : ∀ c ∈ rest.head?, ¬c.isDigit) :
    numberText (whole ++ '.' :: (fraction ++ rest)) = (whole, some fraction) := by
  have ht : (whole ++ '.' :: (fraction ++ rest)).takeWhile Char.isDigit = whole :=
    takeWhile_append_of_head hw (by simp)
  have hf' : (fraction ++ rest).takeWhile Char.isDigit = fraction := takeWhile_append_of_head hf hr
  simp only [numberText, ht, List.drop_left, hf', List.isEmpty_iff, hn, if_false]

theorem isIdentifierPart_of_isDigit {c : Char} (hc : c.isDigit) : isIdentifierPart c := by
  simp [isIdentifierPart, Char.isAlphanum, hc]

theorem not_string_of_isDigit {c : Char} (hc : c.isDigit) (cs : List Char) :
    symbol? (c :: cs) = none ∧ c ≠ '\'' := by
  refine ⟨symbol?_eq_none (.inl (isIdentifierPart_of_isDigit hc)) cs, ?_⟩
  rintro rfl
  exact absurd hc (by decide)

theorem read_digits {digits rest : List Char} (hne : digits ≠ []) (hd : ∀ c ∈ digits, c.isDigit)
    (hv : Path.decimalValue digits < Nat.pow 2 63) (hr : ∀ c ∈ rest.head?, ¬(c.isDigit || c = '.'))
    (offset : Nat) : read offset (digits ++ rest) =
      .ok (int (.ofNat (Path.decimalValue digits)), digits.length) := by
  have hn : numberText (digits ++ rest) = (digits, none) := numberText_append hd hr
  obtain ⟨c, digits, rfl⟩ := List.exists_cons_of_ne_nil hne
  have hc : c.isDigit := hd c List.mem_cons_self
  obtain ⟨hs, hq⟩ := not_string_of_isDigit hc (digits ++ rest)
  rw [List.cons_append] at hn ⊢
  simp only [read, hs, hq, hc, hn, hv, ↓reduceIte]

theorem read_decimal {whole fraction rest : List Char} (hne : whole ≠ [])
    (hw : ∀ c ∈ whole, c.isDigit) (hf : ∀ c ∈ fraction, c.isDigit) (hn : fraction ≠ [])
    (hr : ∀ c ∈ rest.head?, ¬c.isDigit) (offset : Nat) :
    read offset (whole ++ '.' :: (fraction ++ rest)) =
      .ok (double (Binary64.ofDecimal false (Path.decimalValue (whole ++ fraction)) (-fraction.length)),
        whole.length + 1 + fraction.length) := by
  have ht := numberText_decimal hw hf hn hr
  obtain ⟨c, cs, rfl⟩ := List.exists_cons_of_ne_nil hne
  have hc : c.isDigit := hw c List.mem_cons_self
  obtain ⟨hs, hq⟩ := not_string_of_isDigit hc (cs ++ '.' :: (fraction ++ rest))
  rw [List.cons_append] at ht ⊢
  simp only [read, hs, hq, hc, ht, ↓reduceIte]

theorem read_int {i : Int64} (hi : 0 ≤ i) (offset : Nat) {rest : List Char}
    (hr : ∀ c ∈ rest.head?, ¬(int i).joins c) :
    read offset ((int i).spelling ++ rest) = .ok (int i, (int i).spelling.length) := by
  have hd : ∀ c ∈ (int i).spelling, c.isDigit := fun c hc =>
    Nat.isDigit_of_mem_toDigits (by decide) (by decide) hc
  have hv : Path.decimalValue (int i).spelling = i.toNatClampNeg := Nat.ofDigitChars_ten_toDigits
  have hl : Path.decimalValue (int i).spelling < Nat.pow 2 63 := by
    rw [hv]
    exact i.toNatClampNeg_lt
  have hne : (int i).spelling ≠ [] := Nat.toDigits_ne_nil
  rw [read_digits hne hd hl hr, hv, i.ofNat_toNatClampNeg hi]

theorem read_spelling {t : Token} (ht : t.Legible) (offset : Nat) {rest : List Char}
    (hr : ∀ c ∈ rest.head?, ¬t.joins c) :
    read offset (t.spelling ++ rest) = .ok (t, t.spelling.length) := by
  cases t
  case identifier name =>
    obtain ⟨hn, hm⟩ := ht
    have hw : word (String.ofList name.toList) = identifier name := by simp_all [word]
    have hr := read_word offset hn hr
    rwa [hw] at hr
  case int i => exact read_int ht offset hr
  case string s =>
    have hb := stringBody?_escaped s.toList rest
    simp [read, spelling, symbol?_eq_none, hb]
  case trueWord  => exact read_word offset rfl hr
  case falseWord => exact read_word offset rfl hr
  case nullWord  => exact read_word offset rfl hr
  case bang | lt | gt =>
    have hc : ∀ c ∈ rest.head?, c ≠ '=' := fun c hc he => hr c hc (decide_eq_true he)
    cases rest <;> simp_all [read, spelling, symbol?]
  all_goals first | exact ht.elim | rfl

theorem not_isBlank_of_part {c : Char} (hc : isIdentifierPart c) : ¬Text.isBlank c := by
  unfold isIdentifierPart Char.isAlphanum Char.isAlpha Char.isUpper Char.isLower Char.isDigit at hc
  simp only [Bool.or_eq_true, Bool.and_eq_true, decide_eq_true_eq, ge_iff_le,
    UInt32.le_iff_toNat_le, Char.toNat_val, Char.reduceToNat] at hc
  rcases hc with hc | rfl
  · simp only [Text.isBlank, Bool.or_eq_true, Bool.and_eq_true, decide_eq_true_eq]
    omega
  · decide

theorem not_isBlank_of_isDigit {c : Char} (hc : c.isDigit) : ¬Text.isBlank c :=
  not_isBlank_of_part (isIdentifierPart_of_isDigit hc)

theorem Legible.head {t : Token} (ht : t.Legible) :
    ∃ c cs, t.spelling = c :: cs ∧ ¬Text.isBlank c := by
  cases t
  case identifier name =>
    cases hn : name.toList with
    | nil => exact absurd (hn ▸ ht.1) (by decide)
    | cons c cs =>
      have hi := ht.1
      simp only [hn, isIdentifier, Bool.and_eq_true] at hi
      exact ⟨c, cs, hn, not_isBlank_of_part (isIdentifierPart_of_start hi.1)⟩
  case int i =>
    cases hs : (int i).spelling with
    | nil => exact absurd hs Nat.toDigits_ne_nil
    | cons c cs =>
      have hc : c.isDigit :=
        Nat.isDigit_of_mem_toDigits (by decide) (by decide) (hs ▸ List.mem_cons_self)
      exact ⟨c, cs, rfl, not_isBlank_of_isDigit hc⟩
  all_goals first | exact ht.elim | exact ⟨_, _, rfl, by decide⟩

end Token

theorem Written.ne_nil {ts : List Token} {cs : List Char} (h : Written ts cs) : cs ≠ [] := by
  induction h
  case close => simp
  case token => simp_all

namespace Lexemes

def prepend (ls : List Lexeme) (ts : Lexemes) : Lexemes :=
  ls.foldr cons ts

@[simp]
theorem prepend_nil (ts : Lexemes) : prepend [] ts = ts := rfl

@[simp]
theorem prepend_cons (l : Lexeme) (ls : List Lexeme) (ts : Lexemes) :
    prepend (l :: ls) ts = cons l (prepend ls ts) := rfl

theorem prepend_append (ls ms : List Lexeme) (ts : Lexemes) :
    prepend (ls ++ ms) ts = prepend ls (prepend ms ts) :=
  List.foldr_append

theorem length_prepend (ls : List Lexeme) (ts : Lexemes) :
    (prepend ls ts).length = ls.length + ts.length := by
  induction ls with
  | nil => simp
  | cons l ls ih => simp [length, ih, Nat.add_right_comm]

variable {blanks cs after : List Char} {t : Token} {ts : List Token}

theorem scan_token (hb : ∀ c ∈ blanks, Text.isBlank c) (ht : t.Legible)
    (hc : ∀ c ∈ cs.head?, ¬t.joins c) (fuel offset : Nat) :
    ∃ l, l.token = t ∧ l.stop = offset + byteLength (blanks ++ t.spelling) ∧
      scan (fuel + 1) 0 offset (blanks ++ (t.spelling ++ cs)) =
        (cons l (scan fuel 0 l.stop cs).1, (scan fuel 0 l.stop cs).2) := by
  obtain ⟨c, rest, hs, hn⟩ := ht.head
  have hh : ∀ d ∈ (t.spelling ++ cs).head?, ¬Text.isBlank d := by simp_all
  have hr := Token.read_spelling ht (offset + byteLength blanks) hc
  have hcl : t ≠ .closeBrace := by
    rintro rfl
    exact ht
  refine ⟨⟨t, offset + byteLength blanks, offset + byteLength (blanks ++ t.spelling)⟩, rfl, rfl, ?_⟩
  have he : (t.spelling ++ cs).isEmpty = false := by simp [hs]
  simp only [scan, takeWhile_append_of_head hb hh, dropWhile_append_of_head hb hh, he, hr, hcl,
    List.take_left, List.drop_left, byteLength_append, Nat.add_assoc, Bool.false_eq_true,
    false_and, ↓reduceIte]
  cases t <;> first | exact ht.elim | rfl

theorem scan_close (hb : ∀ c ∈ blanks, Text.isBlank c) (fuel offset : Nat) (after : List Char) :
    ∃ l, l.token = .closeBrace ∧ l.stop = offset + byteLength (blanks ++ ['}']) ∧
      scan (fuel + 1) 0 offset (blanks ++ '}' :: after) = (cons l (done l.stop), after) := by
  have hh : ∀ d ∈ ('}' :: after).head?, ¬Text.isBlank d := by
    rintro d ⟨⟩
    decide
  refine ⟨⟨.closeBrace, offset + byteLength blanks, _⟩, rfl, rfl, ?_⟩
  simp [scan, takeWhile_append_of_head hb hh, dropWhile_append_of_head hb hh, Token.read,
    Token.symbol?, Nat.add_assoc]

theorem scan_written (h : Written ts cs) (ht : ∀ t ∈ ts, t.Legible) {fuel : Nat}
    (hf : cs.length < fuel) (offset : Nat) (after : List Char) :
    ∃ ls l, ls.map (·.token) = ts ∧ l.token = .closeBrace ∧ l.stop = offset + byteLength cs ∧
      scan fuel 0 offset (cs ++ after) = (prepend ls (cons l (done l.stop)), after) := by
  induction h generalizing fuel offset
  case close blanks hb =>
    obtain ⟨fuel, rfl⟩ := Nat.exists_eq_succ_of_ne_zero (Nat.ne_zero_of_lt hf)
    obtain ⟨l, hl, hs, he⟩ := scan_close hb fuel offset after
    exact ⟨[], l, rfl, hl, hs, by simpa using he⟩
  case token blanks t ts cs hb hc hw ih =>
    obtain ⟨fuel, rfl⟩ := Nat.exists_eq_succ_of_ne_zero (Nat.ne_zero_of_lt hf)
    obtain ⟨htl, hts⟩ := List.forall_mem_cons.mp ht
    have hh : ∀ c ∈ (cs ++ after).head?, ¬t.joins c := by
      rwa [List.head?_append, Option.or_of_isSome (by simp [hw.ne_nil])]
    obtain ⟨l, hl, hs, he⟩ := scan_token hb htl hh fuel offset
    have hf : cs.length < fuel := by
      obtain ⟨c, rest, hs, _⟩ := htl.head
      simp only [hs, List.length_append, List.length_cons] at hf
      omega
    obtain ⟨ls, m, hls, hm, hms, hr⟩ := ih hts hf l.stop
    refine ⟨l :: ls, m, by simp [hl, hls], hm, by simp [hms, hs, Nat.add_assoc], ?_⟩
    rw [List.append_assoc, List.append_assoc, he, hr, prepend_cons]

end Lexemes

namespace Expr

theorem legible_grouped {ts : List Token} (k rank : Nat) (h : ∀ t ∈ ts, t.Legible) :
    ∀ t ∈ grouped k rank ts, t.Legible := by
  unfold grouped
  split
  case isTrue =>
    simp only [List.forall_mem_append, List.forall_mem_cons]
    exact ⟨trivial, h, trivial, by simp⟩
  case isFalse => exact h

theorem nonneg_neg {i : Int64} (hi : i < 0) (h : i ≠ Int64.minValue) : 0 ≤ -i := by
  have hn : ¬-i ≤ 0 := by simp [Int64.neg_nonpos_iff, h, Int64.not_le.mpr hi]
  exact Int64.le_of_lt (Int64.not_le.mp hn)

theorem nonneg_toInt64 {i : UInt64} (h : i.toNat ≤ 9223372036854775807) : 0 ≤ i.toInt64 := by
  have ht : i.toInt64 = Int64.ofNat i.toNat := by
    rw [← UInt64.toInt64_ofNat', UInt64.ofNat_toNat]
  have hi : (Int64.ofNat i.toNat).toInt = i.toNat := Int64.toInt_ofNat_of_lt (by omega)
  rw [ht, Int64.le_iff_toInt_le, hi]
  simp

theorem legible_literalTokens {v : Value} (h : WritableValue v) :
    ∀ t ∈ literalTokens v, t.Legible := by
  cases v
  case int i =>
    simp only [literalTokens]
    split <;> simp only [List.forall_mem_cons]
    case isTrue hi => exact ⟨trivial, nonneg_neg hi h, by simp⟩
    case isFalse hi => exact ⟨Int64.not_lt.mp hi, by simp⟩
  case bool b => cases b <;> exact List.forall_mem_singleton.mpr trivial
  case double | array | map => exact h.elim
  all_goals exact List.forall_mem_singleton.mpr trivial

theorem legible_keyTokens (quoted : String → Bool) (k : String) :
    ∀ t ∈ keyTokens quoted k, t.Legible := by
  unfold keyTokens
  split <;> simp only [List.forall_mem_cons]
  case isTrue hk => exact ⟨trivial, Token.legible_word (by simp_all), by simp⟩
  case isFalse => exact ⟨trivial, trivial, trivial, by simp⟩

mutual

theorem legible_tokens (quoted : String → Bool) (e : Expr) (h : e.Writable) :
    ∀ t ∈ e.tokens quoted, t.Legible := by
  match e with
  | .literal v => exact legible_literalTokens h
  | .read context steps =>
    simp only [tokens, List.forall_mem_cons]
    obtain ⟨hi, hm, hs⟩ := h
    exact ⟨⟨hi, hm⟩, legible_stepTokens quoted steps hs⟩
  | .unary op operand =>
    simp only [tokens, List.forall_mem_cons]
    have ho : op.token.Legible := by cases op <;> trivial
    exact ⟨ho, legible_grouped _ _ (legible_tokens quoted operand h.1)⟩
  | .binary op left right =>
    simp only [tokens, List.forall_mem_append, List.forall_mem_cons]
    have ho : op.token.Legible := by cases op <;> trivial
    exact ⟨legible_grouped _ _ (legible_tokens quoted left h.1), ho,
      legible_grouped _ _ (legible_tokens quoted right h.2)⟩
  | .conditional condition whenTrue whenFalse =>
    simp only [tokens, List.forall_mem_append, List.forall_mem_cons]
    obtain ⟨hc, ht, hf⟩ := h
    exact ⟨legible_grouped _ _ (legible_tokens quoted condition hc), trivial,
      legible_tokens quoted whenTrue ht, trivial, legible_tokens quoted whenFalse hf⟩

theorem legible_stepTokens (quoted : String → Bool) (steps : List Accessor)
    (h : WritableSteps steps) : ∀ t ∈ stepTokens quoted steps, t.Legible := by
  match steps with
  | [] => simp [stepTokens]
  | .static (.key k) :: rest =>
    simp only [stepTokens, List.forall_mem_append]
    exact ⟨legible_keyTokens quoted k, legible_stepTokens quoted rest h⟩
  | .static (.index i) :: rest =>
    simp only [stepTokens, List.forall_mem_cons]
    exact ⟨trivial, nonneg_toInt64 h.1, trivial, legible_stepTokens quoted rest h.2⟩
  | .computed e :: rest =>
    simp only [stepTokens, List.forall_mem_append, List.forall_mem_cons]
    obtain ⟨he, _, hr⟩ := h
    exact ⟨trivial, legible_tokens quoted e he, trivial, legible_stepTokens quoted rest hr⟩

end

end Expr

end BindingEngine
