import BindingEngine.Proofs.Expr.Consumption
import BindingEngine.Proofs.Path.Grammar
import BindingEngine.Template.Basic

namespace BindingEngine

namespace Path

-- A key whose text between quotes is the same for both readers. Every quote in it stands behind a
-- backslash, and no other backslash stands where one has a meaning in a string.
def isPlain : List Char → Bool
  | [] => true
  | '\\' :: c :: key => c ≠ '\\' && c ≠ 'n' && isPlain key
  | c :: key => c ≠ '\'' && c ≠ '\\' && isPlain key

-- The texts of a path that a binding reads as the same path behind a context.
inductive Portable : List Char → Path → Prop
  | done : Portable [] []
  | field {name cs : List Char} {p : Path} : isIdentifier name → Portable cs p →
    Portable ('.' :: (name ++ cs)) (.key (String.ofList name) :: p)
  | index {before digits after cs : List Char} {p : Path} : (∀ c ∈ before, Text.isBlank c) →
    (∀ c ∈ after, Text.isBlank c) → digits ≠ [] → (∀ c ∈ digits, c.isDigit) →
    decimalValue digits < Nat.pow 2 63 → Portable cs p →
    Portable ('[' :: (before ++ (digits ++ (after ++ ']' :: cs))))
      (.index (decimalValue digits).toUInt64 :: p)
  | key {before key after cs : List Char} {p : Path} : (∀ c ∈ before, Text.isBlank c) →
    (∀ c ∈ after, Text.isBlank c) → isPlain key → Portable cs p →
    Portable ('[' :: (before ++ '\'' :: (key ++ '\'' :: (after ++ ']' :: cs))))
      (.key (String.ofList (unescapeQuotes key)) :: p)

def continued : List Char → List Char
  | [] => []
  | c :: cs => if isIdentifierStart c then '.' :: c :: cs else c :: cs

def binding (context raw : String) : String :=
  String.ofList ('@' :: '{' :: (context.toList ++ (continued raw.toList ++ ['}'])))

section Plain

variable {key rest text : List Char} {n : Nat}

theorem unescapeQuotes_cons {c : Char} (hc : c ≠ '\\') (key : List Char) :
    unescapeQuotes (c :: key) = c :: unescapeQuotes key := by
  rw [unescapeQuotes]
  exact fun _ he => absurd he hc

theorem unescapeQuotes_backslash {c : Char} (hc : c ≠ '\'') (key : List Char) :
    unescapeQuotes ('\\' :: c :: key) = '\\' :: unescapeQuotes (c :: key) := by
  rw [unescapeQuotes]
  exact fun _ _ he => absurd (List.cons.inj he).1 hc

theorem stringBody?_of_isPlain (h : isPlain key) (rest : List Char) :
    Token.stringBody? (key ++ '\'' :: rest) = some (unescapeQuotes key, key.length + 1) := by
  fun_induction isPlain key
  case case1 => rfl
  case case2 c key hi =>
    simp only [Bool.and_eq_true, decide_eq_true_eq] at h
    obtain ⟨⟨hb, hn⟩, hk⟩ := h
    rw [List.cons_append, List.cons_append, Token.stringBody?_escape, hi hk]
    by_cases hq : c = '\''
    case pos => subst hq; rfl
    case neg =>
      rw [unescapeQuotes_backslash hq, unescapeQuotes_cons hb, Option.map_some,
        Token.unescaped_of_ne hq hb hn]
      rfl
  case case3 c key _ hi =>
    simp only [Bool.and_eq_true, decide_eq_true_eq] at h
    obtain ⟨⟨hq, hb⟩, hk⟩ := h
    rw [List.cons_append, Token.stringBody?_cons hq hb, hi hk, unescapeQuotes_cons hb]
    rfl

end Plain

end Path

namespace Expr

open Lexemes (Scanned)
open BindingEngine.Path (Portable)

variable {start fuel room offset n : Nat} {nested : Nat → Nat → Parser} {l l' : Lexeme}
  {ts ts' rest : Lexemes} {e : Expr} {v : Value} {steps : List Accessor} {context : String}

theorem layer_of_ends {k : Nat} (hk : k ≤ 6) (he : ts'.Ends 0)
    (h : signed start nested room ts = .ok (e, ts')) :
    layer start nested (7 - k) room ts = .ok (e, ts') := by
  induction k
  case zero => exact h
  case succ k hi =>
    have hl : 7 - (k + 1) + 1 = 7 - k := by omega
    rw [layer_eq _ _ (by omega) (by omega), hl, chained, hi (by omega)]
    exact chain_of_ends (he.mono (Nat.zero_le _)) _ _ _

theorem parseNested_of_ends (he : ts'.Ends 0)
    (h : signed start (parseNested start fuel) room ts = .ok (e, ts')) :
    parseNested start (fuel + 1) (room + 1) offset ts = .ok (e, ts') :=
  (choice_leads (.of_eq trivial (layer_of_ends (Nat.le_refl 6) he h)) he).1 trivial

theorem ends_of_closed (hl : l.token.rank? = none) (ts : Lexemes) : (Lexemes.cons l ts).Ends 0 := by
  simp [Lexemes.Ends, hl]

theorem parseNested_literal (hl : literalTokens v = [l.token]) (hw : WritableValue v)
    (hl' : l'.token = .rightBracket) :
    parseNested start (fuel + 1) (room + 1) offset (.cons l (.cons l' ts)) =
      .ok (literal v, .cons l' ts) :=
  parseNested_of_ends (ends_of_closed (by rw [hl']; rfl) ts)
    ((signed_leads_literal hw hl).1 (Nat.zero_le _))

theorem parseNested_read (hl : l.token = .identifier context)
    (h : accessors start (parseNested start fuel room) rest.length rest = .ok (steps, ts))
    (he : ts.Ends 0) :
    parseNested start (fuel + 1) (room + 1) offset (.cons l rest) = .ok (read context steps, ts) :=
  parseNested_of_ends he ((signed_leads_primary (by simp [hl]) (by simp [hl])
    (primary_leads_read hl (.of_eq trivial h))).1 trivial)

theorem accessors_field {k : String} (hl : l.token = .dot) (hl' : fieldName? l'.token = some k)
    {nested : Nat → Parser} (h : accessors start nested n rest = .ok (steps, ts)) :
    accessors start nested (n + 1) (.cons l (.cons l' rest)) = .ok (.static (.key k) :: steps, ts) :=
  (accessors_leads_field hl hl' (.of_eq trivial h)).1 trivial

theorem accessors_literal {m : Lexeme} {s : Segment} (hl : l.token = .leftBracket)
    (hm : literalTokens v = [m.token]) (hw : WritableValue v) (hl' : l'.token = .rightBracket)
    (ha : ∀ opened, accessor (literal v) opened = .ok (.static s))
    (h : accessors start (parseNested start (fuel + 1) (room + 1)) n rest = .ok (steps, ts)) :
    accessors start (parseNested start (fuel + 1) (room + 1)) (n + 1)
      (.cons l (.cons m (.cons l' rest))) = .ok (.static s :: steps, ts) := by
  have hne : m.token ≠ .rightBracket := by
    rcases literalTokens_cases hw with ⟨t, ht, hb, _⟩ | ⟨i, rfl, hi⟩
    case inl =>
      obtain rfl := (List.cons.inj (ht.symm.trans hm)).1
      exact hb
    case inr => simp [literalTokens, hi] at hm
  have hb := accessors_leads_bracket hl hne (fun offset => .of_eq trivial
    (parseNested_literal hm hw hl')) hl' (ha l.start) (.of_eq trivial h)
  exact hb.1 ⟨trivial, trivial⟩

section Tokens

variable {after before blanks cs digits key name : List Char}

theorem read_quoted (h : Path.isPlain key) (offset : Nat) :
    Token.read offset ('\'' :: (key ++ ['\'']) ++ cs) =
      .ok (.string (String.ofList (Path.unescapeQuotes key)), ('\'' :: (key ++ ['\''])).length) := by
  simp [Token.read, Token.symbol?_eq_none, Path.stringBody?_of_isPlain h]

theorem not_joins_of_blank (hb : ∀ c ∈ blanks, Text.isBlank c) :
    ∀ c ∈ (blanks ++ ']' :: cs).head?, ¬(c.isDigit || c = '.') := by
  cases blanks
  case nil => simp
  case cons c blanks =>
    have hc := hb c List.mem_cons_self
    have hd : ¬c.isDigit := fun hd => Token.not_isBlank_of_isDigit hd hc
    have hp : c ≠ '.' := by
      rintro rfl
      exact absurd hc (by decide)
    simp [hd, hp]

variable {ts : Lexemes}

theorem scanned_word (hn : isIdentifier name) (hc : ∀ c ∈ cs.head?, ¬isIdentifierPart c)
    (hs : Scanned (name ++ cs) ts after) :
    ∃ l ts', ts = .cons l ts' ∧ l.token = .word (String.ofList name) ∧ Scanned cs ts' after := by
  have hne : name ≠ [] := List.ne_nil_of_length_pos (Path.length_pos_of_isIdentifier hn)
  refine Scanned.token (List.forall_mem_nil _) hne (fun c hc => ?_) hs
    (fun offset => Token.read_word offset hn hc) ?_
  case refine_1 =>
    exact Token.not_isBlank_of_part (Path.isIdentifierPart_of_mem hn c (List.mem_of_head? hc))
  case refine_2 =>
    have hl : (Token.word (String.ofList name)).Legible :=
      Token.legible_word (by rwa [String.toList_ofList])
    intro he
    rw [he] at hl
    exact hl

theorem scanned_digits (hb : ∀ c ∈ before, Text.isBlank c) (hne : digits ≠ [])
    (hd : ∀ c ∈ digits, c.isDigit) (hv : Path.decimalValue digits < Nat.pow 2 63)
    (hr : ∀ c ∈ cs.head?, ¬(c.isDigit || c = '.'))
    (hs : Scanned (before ++ (digits ++ cs)) ts after) :
    ∃ l ts', ts = .cons l ts' ∧ l.token = .int (.ofNat (Path.decimalValue digits)) ∧
      Scanned cs ts' after :=
  hs.token hb hne (fun c hc => Token.not_isBlank_of_isDigit (hd c (List.mem_of_head? hc)))
    (Token.read_digits hne hd hv hr) (by simp)

theorem scanned_quoted (hb : ∀ c ∈ before, Text.isBlank c) (hk : Path.isPlain key)
    (hs : Scanned (before ++ '\'' :: (key ++ '\'' :: cs)) ts after) :
    ∃ l ts', ts = .cons l ts' ∧ l.token = .string (String.ofList (Path.unescapeQuotes key)) ∧
      Scanned cs ts' after := by
  rw [List.append_cons key, ← List.cons_append] at hs
  exact hs.token hb (by simp) (by simp; decide) (read_quoted hk) (by simp)

end Tokens

section Position

variable {i : Nat} (hi : i < Nat.pow 2 63)

include hi

theorem not_lt_zero : ¬Int64.ofNat i < 0 := by
  have h : (Int64.ofNat i).toInt = i := Int64.toInt_ofNat_of_lt hi
  rw [Int64.lt_iff_toInt_lt, h]
  simp

theorem accessor_position (opened : Nat) :
    accessor (literal (.int (.ofNat i))) opened = .ok (.static (.index i.toUInt64)) := by
  have h : (Int64.ofNat i).toInt = i := Int64.toInt_ofNat_of_lt hi
  simp [accessor, h]

end Position

theorem head?_of_portable {cs : List Char} {p : Path} (h : Portable cs p) :
    ∀ c ∈ (cs ++ ['}']).head?, ¬isIdentifierPart c := by
  have hd : ¬isIdentifierPart '.' := by decide
  have hb : ¬isIdentifierPart '[' := by decide
  have hc : ¬isIdentifierPart '}' := by decide
  cases h <;> simp [hd, hb, hc]

-- By induction on the way in which the text is written: its tokens are read one after the other.
theorem accessors_of_portable (start fuel room : Nat) {cs after : List Char} {p : Path}
    (h : Portable cs p)
    (hs : Scanned (cs ++ ['}']) ts after) (hn : ts.length ≤ n) : after = [] ∧ ∃ l ts',
      accessors start (parseNested start (fuel + 1) (room + 1)) n ts =
        .ok (p.map .static, .cons l ts') ∧ l.token = .closeBrace := by
  have hopen : ¬Text.isBlank '[' := by decide
  have hclose : ¬Text.isBlank ']' := by decide
  have hnil : ∀ c ∈ ([] : List Char), Text.isBlank c := List.forall_mem_nil _
  induction h generalizing n ts
  case done =>
    obtain ⟨l, ts', rfl, hl, ha⟩ := hs.close
    have he := (ends_of_closed (by rw [hl]; rfl) ts').mono (Nat.zero_le 7)
    exact ⟨ha, l, ts', accessors_of_ends he n, hl⟩
  case field name cs p hname hp hi =>
    rw [List.cons_append, List.append_assoc] at hs
    obtain ⟨l, ts, rfl, hl, hs⟩ := Scanned.symbol hnil (by decide) hs (fun _ => rfl) (by simp)
    obtain ⟨m, ts, rfl, hm, hs⟩ := scanned_word hname (head?_of_portable hp) hs
    obtain ⟨n, rfl⟩ := Nat.exists_eq_succ_of_ne_zero (Nat.ne_zero_of_lt hn)
    obtain ⟨ha, r, ts', hr, hrt⟩ := hi hs (Nat.le_of_succ_le (Nat.le_of_succ_le_succ hn))
    exact ⟨ha, r, ts', accessors_field hl (hm ▸ fieldName?_word _) hr, hrt⟩
  case index before digits after cs p hb ha hne hd hv hp hi =>
    simp only [List.cons_append, List.append_assoc] at hs
    obtain ⟨l, ts, rfl, hl, hs⟩ := Scanned.symbol hnil hopen hs (fun _ => rfl) (by simp)
    obtain ⟨m, ts, rfl, hm, hs⟩ := scanned_digits hb hne hd hv (not_joins_of_blank ha) hs
    obtain ⟨l', ts, rfl, hl', hs⟩ := Scanned.symbol ha hclose hs (fun _ => rfl) (by simp)
    obtain ⟨n, rfl⟩ := Nat.exists_eq_succ_of_ne_zero (Nat.ne_zero_of_lt hn)
    have hn := Nat.le_of_succ_le (Nat.le_of_succ_le (Nat.le_of_succ_le_succ hn))
    obtain ⟨ha, r, ts', hr, hrt⟩ := hi hs hn
    have hi := not_lt_zero hv
    have hm : literalTokens (.int (.ofNat (Path.decimalValue digits))) = [m.token] := by
      rw [hm, literalTokens, if_neg hi]
    have hw : Int64.ofNat (Path.decimalValue digits) ≠ Int64.minValue := fun he => hi (he ▸ by decide)
    exact ⟨ha, r, ts', accessors_literal hl hm hw hl' (accessor_position hv) hr, hrt⟩
  case key before key after cs p hb ha hk hp hi =>
    simp only [List.cons_append, List.append_assoc] at hs
    obtain ⟨l, ts, rfl, hl, hs⟩ := Scanned.symbol hnil hopen hs (fun _ => rfl) (by simp)
    obtain ⟨m, ts, rfl, hm, hs⟩ := scanned_quoted hb hk hs
    obtain ⟨l', ts, rfl, hl', hs⟩ := Scanned.symbol ha hclose hs (fun _ => rfl) (by simp)
    obtain ⟨n, rfl⟩ := Nat.exists_eq_succ_of_ne_zero (Nat.ne_zero_of_lt hn)
    have hn := Nat.le_of_succ_le (Nat.le_of_succ_le (Nat.le_of_succ_le_succ hn))
    obtain ⟨ha, r, ts', hr, hrt⟩ := hi hs hn
    have hm : literalTokens (.string (String.ofList (Path.unescapeQuotes key))) = [m.token] := by
      rw [hm, literalTokens]
    exact ⟨ha, r, ts', accessors_literal hl hm trivial hl' (fun _ => rfl) hr, hrt⟩

theorem parseBinding_of_portable {context cs : List Char} {p : Path} (hc : isIdentifier context)
    (hw : String.ofList context ∉ ["true", "false", "null"]) (h : Portable cs p) (start : Nat) :
    ∃ stop, parseBinding start (context ++ (cs ++ ['}'])) =
      .ok (read (String.ofList context) (p.map .static), stop, []) := by
  obtain ⟨ts, after, hscan⟩ : ∃ ts after, Lexemes.scan ((context ++ (cs ++ ['}'])).length + 1) 0
    (start + 2) (context ++ (cs ++ ['}'])) = (ts, after) := ⟨_, _, rfl⟩
  have hs : Scanned (context ++ (cs ++ ['}'])) ts after := ⟨_, _, _, Nat.lt_succ_self _, hscan⟩
  obtain ⟨l, ts, rfl, hl, hs⟩ := scanned_word hc (head?_of_portable h) hs
  obtain ⟨rfl, r, ts', hr, hrt⟩ := accessors_of_portable start 62 62 h hs (Nat.le_refl _)
  have hl : l.token = .identifier (String.ofList context) := by
    rw [hl]
    simp_all [Token.word]
  have hn : parseNested start maxDepth maxDepth start (.cons l ts) =
      .ok (read (String.ofList context) (p.map .static), .cons r ts') :=
    parseNested_read hl hr (ends_of_closed (by rw [hrt]; rfl) ts')
  obtain ⟨_, _, _⟩ := l
  obtain ⟨_, _, stop⟩ := r
  cases hl
  cases hrt
  refine ⟨stop, ?_⟩
  simp only [parseBinding, hscan, parseTokens, hn]
  rfl

end Expr

end BindingEngine
