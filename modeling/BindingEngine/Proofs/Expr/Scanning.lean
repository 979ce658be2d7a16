import BindingEngine.Proofs.Expr.Lexing

namespace BindingEngine

namespace Token

variable {cs raw text : List Char} {c : Char} {t : Token} {n offset : Nat}

section StringBody

def unescaped : Char → List Char
  | '\'' => ['\'']
  | '\\' => ['\\']
  | 'n' => ['\n']
  | c => ['\\', c]

theorem unescaped_of_ne (hq : c ≠ '\'') (hb : c ≠ '\\') (hn : c ≠ 'n') : unescaped c = ['\\', c] := by
  unfold unescaped
  split <;> first | contradiction | rfl

theorem count_unescaped (c : Char) : (unescaped c).count '\'' = [c].count '\'' := by
  unfold unescaped
  split <;> simp

theorem stringBody?_escape (c : Char) (cs : List Char) :
    stringBody? ('\\' :: c :: cs) = (stringBody? cs).map fun x => (unescaped c ++ x.1, x.2 + 2) :=
  rfl

theorem stringBody?_cons (hq : c ≠ '\'') (hb : c ≠ '\\') (cs : List Char) :
    stringBody? (c :: cs) = (stringBody? cs).map fun x => (c :: x.1, x.2 + 1) := by
  rw [stringBody?]
  case x_1 => exact hq
  case x_2 => exact fun _ _ he => absurd he hb

theorem exists_of_map {f : List Char × Nat → List Char × Nat} {x : Option (List Char × Nat)}
    (h : x.map f = some (text, n)) : ∃ ds k, x = some (ds, k) ∧ f (ds, k) = (text, n) := by
  obtain ⟨⟨ds, k⟩, hx, hf⟩ := Option.map_eq_some_iff.mp h
  exact ⟨ds, k, hx, hf⟩

theorem exists_stringBody (h : stringBody? cs = some (text, n)) :
    ∃ body rest, cs = body ++ '\'' :: rest ∧ n = body.length + 1 ∧
      body.count '\'' = text.count '\'' ∧
      ∀ rest, stringBody? (body ++ '\'' :: rest) = some (text, n) := by
  fun_induction stringBody? cs generalizing text n
  case case1 => contradiction
  case case2 rest =>
    obtain ⟨rfl, rfl⟩ := Prod.mk.inj (Option.some.inj h)
    exact ⟨[], rest, rfl, rfl, rfl, fun _ => rfl⟩
  case case3 c cs _ hi =>
    obtain ⟨ds, k, ht, he⟩ := exists_of_map h
    obtain ⟨rfl, rfl⟩ := Prod.mk.inj he
    obtain ⟨body, rest, rfl, rfl, hc, hs⟩ := hi ht
    refine ⟨'\\' :: c :: body, rest, rfl, rfl, ?_, fun rest => congrArg (Option.map _) (hs rest)⟩
    have hu : ((unescaped c) ++ ds).count '\'' = (c :: body).count '\'' := by
      rw [List.count_append, count_unescaped, ← hc]
      exact List.count_append.symm
    exact (List.count_cons_of_ne (by decide)).trans hu.symm
  case case4 c cs hq hb hi =>
    obtain ⟨ds, k, ht, he⟩ := exists_of_map h
    obtain ⟨rfl, rfl⟩ := Prod.mk.inj he
    obtain ⟨body, rest, rfl, rfl, hc, hs⟩ := hi ht
    have hb : c ≠ '\\' := by
      intro he
      obtain ⟨d, ds, hd⟩ := List.exists_cons_of_ne_nil (List.append_ne_nil_of_right_ne_nil body
        (List.cons_ne_nil '\'' rest))
      exact hb d ds he hd
    refine ⟨c :: body, rest, rfl, rfl, ?_, fun rest => ?_⟩
    case refine_1 => rw [List.count_cons, List.count_cons, hc]
    case refine_2 => rw [List.cons_append, stringBody?_cons hq hb, hs]; rfl

end StringBody

section Reads

-- The ways to read a token, which are the same wherever it stands.
inductive Reads : List Char → Token × Nat → Prop
  | symbol {cs : List Char} {found : Token × Nat} : symbol? cs = some found → Reads cs found
  | string {cs text : List Char} {n : Nat} :
    stringBody? cs = some (text, n) → Reads ('\'' :: cs) (string (String.ofList text), n + 1)
  | double {c : Char} {cs whole fraction : List Char} :
    c.isDigit → numberText (c :: cs) = (whole, some fraction) →
    Reads (c :: cs) (double (Binary64.ofDecimal false (Path.decimalValue (whole ++ fraction))
      (-fraction.length)), whole.length + 1 + fraction.length)
  | int {c : Char} {cs whole : List Char} :
    c.isDigit → numberText (c :: cs) = (whole, none) → Path.decimalValue whole < Nat.pow 2 63 →
    Reads (c :: cs) (int (.ofNat (Path.decimalValue whole)), whole.length)
  | word {c : Char} {cs : List Char} :
    isIdentifierStart c → Reads (c :: cs)
      (word (String.ofList (c :: cs.takeWhile isIdentifierPart)),
        (c :: cs.takeWhile isIdentifierPart).length)

theorem reads_of_read (h : read offset cs = .ok (t, n)) : Reads cs (t, n) := by
  unfold read at h
  split at h
  case h_1 => contradiction
  case h_2 c cs =>
    split at h
    case h_1 found hs => exact Except.ok.inj h ▸ .symbol hs
    case h_2 =>
      split at h
      case isTrue hq =>
        split at h
        case h_1 hs => exact Except.ok.inj h ▸ hq ▸ .string hs
        case h_2 => contradiction
      case isFalse =>
        split at h
        case isTrue hd =>
          split at h
          case h_1 hn => exact Except.ok.inj h ▸ .double hd hn
          case h_2 hn =>
            simp only at h
            split at h
            case isTrue hi => exact Except.ok.inj h ▸ .int hd hn hi
            case isFalse => contradiction
        case isFalse =>
          split at h
          case isTrue hs => exact Except.ok.inj h ▸ .word hs
          case isFalse => contradiction

theorem read_of_reads (h : Reads cs (t, n)) (offset : Nat) : read offset cs = .ok (t, n) := by
  have hq : ¬isIdentifierPart '\'' := by decide
  have hne {c : Char} (hp : isIdentifierPart c) : c ≠ '\'' := fun he => hq (he ▸ hp)
  have hdigit {c : Char} (hd : c.isDigit) : isIdentifierPart c := by
    simp [isIdentifierPart, Char.isAlphanum, hd]
  cases h
  case symbol h =>
    cases cs
    case nil => cases h
    case cons c cs => simp only [read, h]
  case string cs text n h =>
    have hs : symbol? ('\'' :: cs) = none := symbol?_eq_none (.inr rfl) cs
    simp only [read, hs, h, if_true]
  case double c cs whole fraction hd h =>
    simp only [read, symbol?_eq_none (.inl (hdigit hd)), hne (hdigit hd), hd, h, if_false, if_true]
  case int c cs whole hd h hi =>
    simp only [read, symbol?_eq_none (.inl (hdigit hd)), hne (hdigit hd), hd, h, hi, if_false, if_true]
  case word c cs hs =>
    have hp := isIdentifierPart_of_start hs
    simp only [read, symbol?_eq_none (.inl hp), hne hp, not_isDigit_of_start hs, hs, if_false,
      if_true]
    rfl

end Reads

section Spelling

-- What a token is read from. There are quotes in strings only.
def SpelledBy : Token → List Char → Prop
  | string s, raw => ∃ body, raw = '\'' :: (body ++ ['\'']) ∧
    body.count '\'' = s.toList.count '\'' ∧
    ∀ rest, stringBody? (body ++ '\'' :: rest) = some (s.toList, body.length + 1)
  | rightBracket, raw => raw = [']']
  | _, raw => '\'' ∉ raw

theorem symbol?_spelled (h : symbol? cs = some (t, n)) :
    ∃ raw rest, cs = raw ++ rest ∧ raw.length = n ∧ raw ≠ [] ∧ t.SpelledBy raw := by
  unfold symbol? at h
  split at h
  case h_24 => contradiction
  all_goals
    obtain ⟨rfl, rfl⟩ := Prod.mk.inj (Option.some.inj h)
    first
    | exact ⟨[_, _], _, rfl, rfl, by simp, by simp [SpelledBy]⟩
    | exact ⟨[_], _, rfl, rfl, by simp, by simp [SpelledBy]⟩

theorem numberText_spelled {whole : List Char} {fraction : Option (List Char)}
    (h : numberText cs = (whole, fraction)) :
    whole = cs.takeWhile Char.isDigit ∧ ∀ digits, fraction = some digits →
      (∀ c ∈ digits, c.isDigit) ∧ ∃ rest, cs = whole ++ '.' :: (digits ++ rest) := by
  simp only [numberText] at h
  have hw := List.prefix_iff_eq_append.mp (List.takeWhile_prefix (l := cs) Char.isDigit)
  split at h
  case h_1 rest hd =>
    split at h
    case isTrue =>
      obtain ⟨rfl, rfl⟩ := Prod.mk.inj h
      exact ⟨rfl, fun _ he => by cases he⟩
    case isFalse =>
      obtain ⟨rfl, rfl⟩ := Prod.mk.inj h
      refine ⟨rfl, fun digits he => ?_⟩
      obtain rfl := Option.some.inj he
      refine ⟨List.all_eq_true.mp List.all_takeWhile, rest.dropWhile Char.isDigit, ?_⟩
      rw [List.takeWhile_append_dropWhile, ← hd, hw]
  case h_2 =>
    obtain ⟨rfl, rfl⟩ := Prod.mk.inj h
    exact ⟨rfl, fun _ he => by cases he⟩

theorem not_mem_takeWhile {p : Char → Bool} (h : ¬p c) : c ∉ cs.takeWhile p :=
  fun hm => h (List.all_eq_true.mp List.all_takeWhile c hm)

theorem spelledBy_word (name : String) (h : '\'' ∉ raw) : (word name).SpelledBy raw := by
  unfold word
  split
  case isTrue => exact h
  case isFalse =>
    split
    case isTrue => exact h
    case isFalse => split <;> exact h

theorem read_spelled (h : read offset cs = .ok (t, n)) :
    ∃ raw rest, cs = raw ++ rest ∧ raw.length = n ∧ raw ≠ [] ∧ t.SpelledBy raw := by
  have hd : ¬Char.isDigit '\'' := by decide
  cases reads_of_read h
  case symbol hs => exact symbol?_spelled hs
  case string hs =>
    obtain ⟨body, rest, rfl, rfl, hc, hs⟩ := exists_stringBody hs
    refine ⟨'\'' :: (body ++ ['\'']), rest, by simp, by simp, by simp, body, rfl, ?_⟩
    rw [String.toList_ofList]
    exact ⟨hc, hs⟩
  case double c cs whole digits _ hn =>
    obtain ⟨hw, hf⟩ := numberText_spelled hn
    obtain ⟨hdigits, rest, hr⟩ := hf digits rfl
    have hq : '\'' ∉ whole := hw ▸ not_mem_takeWhile hd
    have hq' : '\'' ∉ digits := fun hm => hd (hdigits _ hm)
    refine ⟨whole ++ '.' :: digits, rest, by simp [hr], ?_, by simp, ?_⟩
    case refine_1 => rw [List.length_append, List.length_cons, Nat.add_assoc, Nat.add_comm 1]
    case refine_2 => simp [SpelledBy, hq, hq']
  case int hd' hn _ =>
    obtain ⟨rfl, -⟩ := numberText_spelled hn
    exact ⟨_, _, List.takeWhile_append_dropWhile.symm, rfl, by simp [hd'], not_mem_takeWhile hd⟩
  case word c cs hs =>
    refine ⟨_, cs.dropWhile isIdentifierPart, ?_, rfl, by simp, spelledBy_word _ ?_⟩
    case refine_1 => rw [List.cons_append, List.takeWhile_append_dropWhile]
    case refine_2 =>
      have hq : '\'' ≠ c := by
        rintro rfl
        exact absurd hs (by decide)
      exact List.not_mem_cons_of_ne_of_not_mem hq (not_mem_takeWhile (by decide))

end Spelling

-- How many bindings inside another one are open behind a token, if the other one is open still.
def depth? (depth : Nat) : Token → Option Nat
  | openBinding => some (depth + 1)
  | closeBrace  => if depth = 0 then none else some (depth - 1)
  | _           => some depth

theorem depth?_eq_none_iff {depth : Nat} :
    t.depth? depth = none ↔ t = .closeBrace ∧ depth = 0 := by
  cases t <;> simp [depth?]

def quotes : Token → Nat
  | string s => s.toList.count '\''
  | _ => 0

def isString : Token → Bool
  | string _ => true
  | _ => false

theorem SpelledBy.exists_string (h : t.SpelledBy raw) (hq : '\'' ∈ raw) : ∃ s body, t = string s ∧
    raw = '\'' :: (body ++ ['\'']) ∧
    ∀ rest, stringBody? (body ++ '\'' :: rest) = some (s.toList, body.length + 1) := by
  cases t
  case string s =>
    obtain ⟨body, he, _, hs⟩ := h
    exact ⟨s, body, rfl, he, hs⟩
  case rightBracket =>
    obtain rfl : raw = [']'] := h
    simp at hq
  all_goals exact absurd hq h

theorem SpelledBy.count (h : t.SpelledBy raw) :
    raw.count '\'' = t.quotes + if t.isString then 2 else 0 := by
  cases t
  case string s =>
    obtain ⟨body, rfl, hc, _⟩ := h
    simp [quotes, isString, hc]
  case rightBracket => exact (congrArg _ h).trans rfl
  all_goals exact List.count_eq_zero.mpr h

end Token

namespace Lexemes

-- The tokens at the beginning of a text, wherever it stands in a binding, and the text behind them.
def Scanned (cs : List Char) (ts : Lexemes) (rest : List Char) : Prop :=
  ∃ fuel depth offset, cs.length < fuel ∧ scan fuel depth offset cs = (ts, rest)

-- The texts that tokens are read from, with any blanks in front of them.
inductive SpelledIn : List Lexeme → List Char → Prop
  | nil {blanks : List Char} : (∀ c ∈ blanks, Text.isBlank c) → SpelledIn [] blanks
  | cons {blanks raw cs : List Char} {l : Lexeme} {ls : List Lexeme} :
    (∀ c ∈ blanks, Text.isBlank c) → raw ≠ [] → (∀ c ∈ raw.head?, ¬Text.isBlank c) →
    l.token.SpelledBy raw → SpelledIn ls cs → SpelledIn (l :: ls) (blanks ++ (raw ++ cs))

variable {after blanks cs raw rest : List Char} {l : Lexeme} {ls : List Lexeme} {t : Token}
  {ts : Lexemes} {fuel depth depth' offset : Nat}

def next? (offset : Nat) (cs : List Char) : Option (Lexeme × List Char) :=
  let start := offset + byteLength (cs.takeWhile Text.isBlank)
  let cs := cs.dropWhile Text.isBlank
  match Token.read start cs with
  | .ok (t, n) => some (⟨t, start, start + byteLength (cs.take n)⟩, cs.drop n)
  | .error _   => none

section Next

theorem next?_eq_some_iff : next? offset cs = some (l, rest) ↔ ∃ n,
    Token.read l.start (cs.dropWhile Text.isBlank) = .ok (l.token, n) ∧
    l.start = offset + byteLength (cs.takeWhile Text.isBlank) ∧
    l.stop = l.start + byteLength ((cs.dropWhile Text.isBlank).take n) ∧
    rest = (cs.dropWhile Text.isBlank).drop n := by
  obtain ⟨t, start, stop⟩ := l
  simp only [next?]
  constructor
  case mp =>
    intro h
    split at h
    case h_1 n hr =>
      cases h
      exact ⟨n, hr, rfl, rfl, rfl⟩
    case h_2 => contradiction
  case mpr =>
    rintro ⟨n, hr, rfl, rfl, rfl⟩
    simp only [hr]

theorem exists_next? (h : scan fuel depth offset cs = (cons l ts, rest)) :
    ∃ fuel' after, fuel = fuel' + 1 ∧ next? offset cs = some (l, after) := by
  cases fuel
  case zero => cases h
  case succ fuel =>
    simp only [scan] at h
    split at h
    case isTrue => cases h
    case isFalse =>
      split at h
      case h_1 => cases h
      case h_2 t n hr =>
        refine ⟨fuel, (cs.dropWhile Text.isBlank).drop n, rfl, next?_eq_some_iff.mpr ⟨n, ?_⟩⟩
        split at h
        all_goals
          cases h
          exact ⟨hr, rfl, rfl, rfl⟩

variable (h : next? offset cs = some (l, rest))

include h

theorem isEmpty_of_next? : (cs.dropWhile Text.isBlank).isEmpty = false := by
  obtain ⟨n, hr, _⟩ := next?_eq_some_iff.mp h
  cases hc : cs.dropWhile Text.isBlank
  case nil =>
    rw [hc] at hr
    cases hr
  case cons => rfl

theorem scan_closed (hl : l.token = .closeBrace) :
    scan (fuel + 1) 0 offset cs = (cons l (done l.stop), rest) := by
  obtain ⟨n, hr, hstart, hstop, rfl⟩ := next?_eq_some_iff.mp h
  obtain ⟨t, start, stop⟩ := l
  cases hl
  simp only at hstart hstop hr
  subst hstart hstop
  simp only [scan, isEmpty_of_next? h, hr, and_self, if_true, Bool.false_eq_true, if_false]

theorem scan_next (hd : l.token.depth? depth = some depth') :
    scan (fuel + 1) depth offset cs =
      (cons l (scan fuel depth' l.stop rest).1, (scan fuel depth' l.stop rest).2) := by
  obtain ⟨n, hr, hstart, hstop, rfl⟩ := next?_eq_some_iff.mp h
  have he := isEmpty_of_next? h
  obtain ⟨t, start, stop⟩ := l
  simp only at hstart hstop hr
  subst hstart hstop
  cases t
  case closeBrace =>
    simp only [Token.depth?] at hd
    split at hd
    case isTrue => contradiction
    case isFalse hne =>
      cases hd
      simp only [scan, he, hr, hne, and_false, Bool.false_eq_true, if_false]
  all_goals
    cases hd
    simp only [scan, he, hr, reduceCtorEq, false_and, Bool.false_eq_true, if_false]

end Next

section Scanned

variable (hb : ∀ c ∈ blanks, Text.isBlank c) (hne : raw ≠ []) (hh : ∀ c ∈ raw.head?, ¬Text.isBlank c)

include hb hne hh

theorem next?_of_read {offset : Nat}
    (hr : Token.read (offset + byteLength blanks) (raw ++ cs) = .ok (t, raw.length)) :
    ∃ l, l.token = t ∧ next? offset (blanks ++ (raw ++ cs)) = some (l, cs) := by
  have hh : ∀ c ∈ (raw ++ cs).head?, ¬Text.isBlank c := by
    rwa [List.head?_append, Option.or_of_isSome (by simp [hne])]
  simp only [next?, takeWhile_append_of_head hb hh, dropWhile_append_of_head hb hh, hr,
    List.take_left, List.drop_left]
  exact ⟨⟨t, _, _⟩, rfl, rfl⟩

theorem Scanned.token (h : Scanned (blanks ++ (raw ++ cs)) ts after)
    (hr : ∀ offset, Token.read offset (raw ++ cs) = .ok (t, raw.length)) (ht : t ≠ .closeBrace) :
    ∃ l ts', ts = cons l ts' ∧ l.token = t ∧ Scanned cs ts' after := by
  obtain ⟨fuel, depth, offset, hf, h⟩ := h
  obtain ⟨fuel, rfl⟩ := Nat.exists_eq_succ_of_ne_zero (Nat.ne_zero_of_lt hf)
  obtain ⟨l, rfl, hn⟩ := next?_of_read hb hne hh (hr (offset + byteLength blanks))
  obtain ⟨depth', hd⟩ := Option.ne_none_iff_exists'.mp fun hd => ht (Token.depth?_eq_none_iff.mp hd).1
  have hp := List.length_pos_iff.mpr hne
  simp only [List.length_append] at hf
  obtain ⟨rfl, rfl⟩ := Prod.mk.inj ((scan_next hn hd).symm.trans h)
  exact ⟨l, _, rfl, rfl, fuel, depth', l.stop, by omega, rfl⟩

omit hne hh in
theorem Scanned.symbol {c : Char} (hc : ¬Text.isBlank c)
    (h : Scanned (blanks ++ c :: cs) ts after)
    (hr : ∀ offset, Token.read offset (c :: cs) = .ok (t, 1)) (ht : t ≠ .closeBrace) :
    ∃ l ts', ts = cons l ts' ∧ l.token = t ∧ Scanned cs ts' after :=
  Scanned.token hb (List.cons_ne_nil c []) (by simpa using hc) h hr ht

end Scanned

theorem Scanned.of_cons (h : Scanned cs (cons l ts) after) : ∃ blanks raw rest,
    cs = blanks ++ (raw ++ rest) ∧ (∀ c ∈ blanks, Text.isBlank c) ∧ raw ≠ [] ∧
      (∀ c ∈ raw.head?, ¬Text.isBlank c) ∧ l.token.SpelledBy raw ∧
      (Scanned rest ts after ∨ l.token = .closeBrace ∧ ∃ offset, ts = done offset) := by
  obtain ⟨fuel, depth, offset, hf, h⟩ := h
  obtain ⟨fuel, rest, rfl, hn⟩ := exists_next? h
  obtain ⟨n, hr, -, -, rfl⟩ := next?_eq_some_iff.mp hn
  obtain ⟨raw, rest, hd, rfl, hne, hs⟩ := Token.read_spelled hr
  rw [hd, List.drop_left] at hn
  have hsplit : cs = cs.takeWhile Text.isBlank ++ (raw ++ rest) := by
    rw [← hd, List.takeWhile_append_dropWhile]
  have hblank := List.all_eq_true.mp (List.all_takeWhile (p := Text.isBlank) (l := cs))
  refine ⟨_, raw, rest, hsplit, hblank, hne, ?head, hs, ?tail⟩
  case head =>
    intro c hc
    have hhead := List.head?_dropWhile_not Text.isBlank cs
    rw [hd, List.head?_append, Option.or_of_isSome (by simp [hne]), hc] at hhead
    simpa using hhead
  case tail =>
    cases hdepth : l.token.depth? depth
    case none =>
      obtain ⟨hl, rfl⟩ := Token.depth?_eq_none_iff.mp hdepth
      rw [scan_closed hn hl] at h
      cases h
      exact .inr ⟨hl, _, rfl⟩
    case some depth' =>
      rw [scan_next hn hdepth] at h
      cases h
      refine .inl ⟨fuel, depth', _, ?_, rfl⟩
      have hp := List.length_pos_iff.mpr hne
      rw [hsplit] at hf
      simp only [List.length_append] at hf
      omega

theorem Scanned.close (h : Scanned ['}'] ts after) :
    ∃ l ts', ts = cons l ts' ∧ l.token = .closeBrace ∧ after = [] := by
  obtain ⟨fuel, depth, offset, hf, h⟩ := h
  obtain ⟨fuel, rfl⟩ := Nat.exists_eq_succ_of_ne_zero (Nat.ne_zero_of_lt hf)
  have hn (fuel depth offset : Nat) : (scan fuel depth offset []).2 = [] := by
    cases fuel <;> rfl
  have hb : ¬Text.isBlank '}' := by decide
  simp only [scan, List.takeWhile_cons_of_neg hb, List.dropWhile_cons_of_neg hb] at h
  cases depth <;> cases h
  case zero => exact ⟨_, _, rfl, rfl, rfl⟩
  case succ depth => exact ⟨_, _, rfl, rfl, hn fuel _ _⟩

theorem Scanned.split (hl : l.token = .rightBracket)
    (h : Scanned cs (prepend ls (cons l ts)) after) :
    ∃ before rest, cs = before ++ ']' :: rest ∧ SpelledIn ls before ∧ Scanned rest ts after := by
  induction ls generalizing cs
  case nil =>
    obtain ⟨blanks, raw, rest, rfl, hb, _, _, hs, ht⟩ := h.of_cons
    rw [hl] at hs ht
    obtain rfl : raw = [']'] := hs
    rcases ht with ht | ⟨hc, _⟩
    case inl => exact ⟨blanks, rest, rfl, .nil hb, ht⟩
    case inr => cases hc
  case cons m ls hi =>
    obtain ⟨blanks, raw, rest, rfl, hb, hne, hh, hs, ht | ⟨_, _, hd⟩⟩ := h.of_cons
    case inr => cases ls <;> contradiction
    case inl =>
      obtain ⟨before, rest, rfl, hr, ht⟩ := hi ht
      exact ⟨blanks ++ (raw ++ before), rest, by simp, .cons hb hne hh hs hr, ht⟩

def quotes : List Lexeme → Nat
  | [] => 0
  | l :: ls => l.token.quotes + quotes ls

def strings (ls : List Lexeme) : Nat := ls.countP (·.token.isString)

theorem quotes_cons (l : Lexeme) (ls : List Lexeme) : quotes (l :: ls) = l.token.quotes + quotes ls :=
  rfl

theorem strings_cons (l : Lexeme) (ls : List Lexeme) :
    strings (l :: ls) = strings ls + if l.token.isString then 1 else 0 :=
  List.countP_cons

theorem quotes_append (ls ms : List Lexeme) : quotes (ls ++ ms) = quotes ls + quotes ms := by
  induction ls
  case nil => exact (Nat.zero_add _).symm
  case cons l ls hi => rw [List.cons_append, quotes_cons, quotes_cons, hi, Nat.add_assoc]

theorem SpelledIn.count (h : SpelledIn ls cs) : cs.count '\'' = quotes ls + 2 * strings ls := by
  have hblanks {blanks : List Char} (hb : ∀ c ∈ blanks, Text.isBlank c) : blanks.count '\'' = 0 :=
    List.count_eq_zero.mpr fun hm => absurd (hb _ hm) (by decide)
  induction h
  case nil hb => exact hblanks hb
  case cons l ls hb _ _ hs _ hi =>
    rw [List.count_append, List.count_append, hblanks hb, hs.count, hi, quotes_cons, strings_cons]
    split <;> omega

theorem SpelledIn.eq_nil (h : SpelledIn ls cs) (hb : ∀ c ∈ cs, Text.isBlank c) : ls = [] := by
  cases h
  case nil => rfl
  case cons hne hh _ _ =>
    obtain ⟨c, raw, rfl⟩ := List.exists_cons_of_ne_nil hne
    exact absurd (hb c (by simp)) (hh c rfl)

theorem quotes_eq_zero (h : strings ls = 0) : quotes ls = 0 := by
  induction ls
  case nil => rfl
  case cons l ls hi =>
    rw [strings_cons, Nat.add_eq_zero_iff] at h
    rw [quotes_cons, hi h.1]
    cases ht : l.token
    case string => simp [ht, Token.isString] at h
    all_goals rfl

-- A text between quotes is that of a single string, if the tokens have as many quotes in their strings.
theorem SpelledIn.of_quoted {before key after : List Char} (hb : ∀ c ∈ before, Text.isBlank c)
    (ha : ∀ c ∈ after, Text.isBlank c)
    (h : SpelledIn ls (before ++ '\'' :: (key ++ '\'' :: after))) (hq : key.count '\'' ≤ quotes ls) :
    ∃ l s, ls = [l] ∧ l.token = .string s ∧
      ∀ rest, Token.stringBody? (key ++ '\'' :: rest) = some (s.toList, key.length + 1) := by
  have hquote : ¬Text.isBlank '\'' := by decide
  have hb0 : before.count '\'' = 0 := List.count_eq_zero.mpr fun hm => hquote (hb _ hm)
  have ha0 : '\'' ∉ after := fun hm => hquote (ha _ hm)
  have hc := h.count
  simp only [List.count_append, List.count_cons_self, hb0, List.count_eq_zero.mpr ha0] at hc
  generalize ht : before ++ '\'' :: (key ++ '\'' :: after) = text at h
  cases h
  case nil hblanks => exact absurd (hblanks '\'' (by simp [← ht])) hquote
  case cons blanks raw rest l ls hblanks hne hh hs h =>
    have hd := congrArg (List.dropWhile Text.isBlank) ht
    obtain ⟨c, raw, rfl⟩ := List.exists_cons_of_ne_nil hne
    rw [dropWhile_append_of_head hb (by simpa using hquote),
      dropWhile_append_of_head hblanks (by simpa using hh c rfl), List.cons_append] at hd
    obtain ⟨rfl, hd⟩ := List.cons.inj hd
    obtain ⟨s, body, hl, hraw, hbody⟩ := hs.exists_string List.mem_cons_self
    obtain rfl := (List.cons.inj hraw).2
    have hrest := h.count
    simp only [quotes_cons, strings_cons, hl, Token.isString, Token.quotes, if_true] at hc hq
    have hzero : strings ls = 0 := by omega
    have hq0 : '\'' ∉ rest := by
      rw [← List.count_eq_zero, hrest, hzero, quotes_eq_zero hzero]
    rw [List.append_assoc, List.singleton_append] at hd
    obtain ⟨rfl, rfl⟩ := append_cons_inj_right ha0 hq0 (List.cons.inj hd).2
    obtain rfl := h.eq_nil ha
    exact ⟨l, s, rfl, hl, hbody⟩

end Lexemes

end BindingEngine
