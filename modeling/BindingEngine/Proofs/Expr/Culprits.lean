import BindingEngine.Proofs.Data.RoundTrip
import BindingEngine.Proofs.Expr.Derivation
import BindingEngine.Proofs.Expr.Scanning

namespace BindingEngine

open Template (opening)

namespace Token

variable {c : Char} {cs m : List Char} {t : Token} {n offset : Nat}

section Strings

-- Whether the character behind a part of a string is escaped: by a backslash that is not escaped itself.
def escapes (cs : List Char) : Bool := cs.foldl (fun escaped c => c = '\\' && !escaped) false

def Unclosed (cs : List Char) : Prop :=
  ∀ body rest, cs = body ++ '\'' :: rest → escapes body

theorem escapes_escape (c : Char) (cs : List Char) : escapes ('\\' :: c :: cs) = escapes cs := by
  simp [escapes]

theorem escapes_cons (hc : c ≠ '\\') (cs : List Char) : escapes (c :: cs) = escapes cs := by
  simp [escapes, hc]

theorem unclosed_escape (c : Char) (cs : List Char) : Unclosed ('\\' :: c :: cs) ↔ Unclosed cs := by
  constructor
  case mp =>
    rintro h body rest rfl
    rw [← escapes_escape c]
    exact h ('\\' :: c :: body) rest rfl
  case mpr =>
    intro h body rest he
    match body with
    | [] => cases he
    | [d] =>
      obtain rfl := (List.cons.inj he).1
      rfl
    | d :: d' :: body =>
      obtain ⟨hd, he⟩ := List.cons.inj he
      rw [← hd, escapes_escape]
      exact h body rest (List.cons.inj he).2

theorem unclosed_cons (hq : c ≠ '\'') (hb : c = '\\' → cs = []) :
    Unclosed (c :: cs) ↔ Unclosed cs := by
  -- a backslash at the end of the text escapes nothing
  have hc (body rest : List Char) (he : cs = body ++ '\'' :: rest) : escapes (c :: body) = escapes body :=
    escapes_cons (fun h => by simp [he, h] at hb) body
  constructor
  case mp => exact fun h body rest he => (hc body rest he).symm.trans (h (c :: body) rest (he ▸ rfl))
  case mpr =>
    intro h body rest he
    cases body
    case nil => exact absurd (List.cons.inj he).1 hq
    case cons d body =>
      obtain ⟨rfl, hr⟩ := List.cons.inj he
      exact (hc body rest hr).trans (h body rest hr)

theorem stringBody?_eq_none_iff : stringBody? cs = none ↔ Unclosed cs := by
  fun_induction stringBody? cs
  case case1 => exact iff_of_true rfl fun body rest he => by simp at he
  case case2 rest => exact iff_of_false (Option.some_ne_none _) fun h => by cases h [] rest rfl
  case case3 c cs _ hi => rw [Option.map_eq_none_iff, hi, unclosed_escape]
  case case4 c cs hq hb hi =>
    have hb : c = '\\' → cs = [] := fun hc => by
      cases cs
      case nil => rfl
      case cons d cs => exact (hb d cs hc rfl).elim
    rw [Option.map_eq_none_iff, hi, unclosed_cons hq hb]

end Strings

section Marks

def mark? : Token → Option (List Char)
  | leftBracket  => some ['[']
  | rightBracket => some [']']
  | leftParen    => some ['(']
  | rightParen   => some [')']
  | openBinding  => some opening
  | _            => none

def marks : List (List Char) := [['['], [']'], ['('], [')'], opening]

theorem mem_marks (h : t.mark? = some m) : m ∈ marks := by
  cases t <;> cases h <;> decide

theorem mark?_word (name : String) : (word name).mark? = none := by
  unfold word
  split_ifs <;> rfl

theorem mark_of_symbol? {found : Token × Nat} (h : symbol? cs = some found)
    (hm : found.1.mark? = some m) : m <+: cs := by
  unfold symbol? at h
  split at h
  case h_24 => contradiction
  all_goals
    obtain rfl := Option.some.inj h
    cases hm
    try exact List.prefix_append _ _

theorem mark_of_read (h : read offset cs = .ok (t, n)) (hm : t.mark? = some m) : m <+: cs := by
  cases reads_of_read h
  case symbol hs => exact mark_of_symbol? hs hm
  case word =>
    rw [mark?_word] at hm
    contradiction
  all_goals cases hm

end Marks

theorem symbols_prefix (cs : List Char) : symbols cs <+: cs := by
  cases cs
  case nil => exact List.prefix_refl _
  case cons c cs =>
    rw [symbols]
    split
    case isTrue => exact List.cons_prefix_cons.mpr ⟨rfl, List.takeWhile_prefix _⟩
    case isFalse => exact List.cons_prefix_cons.mpr ⟨rfl, List.nil_prefix⟩

theorem symbols_ne_nil (c : Char) (cs : List Char) : symbols (c :: cs) ≠ [] := by
  rw [symbols]
  split <;> exact List.cons_ne_nil _ _

end Token

-- What stands at the place of an error, with the text `before` in front of it.
def ParseError.Culprit (before after : List Char) : ParseError → Prop
  | unterminated _ | empty _ => opening <+: after ∧ before.getLast? ≠ some '\\'
  | unterminatedString _ => ∃ cs, after = '\'' :: cs ∧ Token.Unclosed cs
  | unbalancedBrackets _ => ∃ m ∈ Token.marks, m <+: after
  | unknownOperator operator _ => operator.toList ≠ [] ∧ operator.toList <+: after
  | unexpectedToken found offset => ∃ n, Token.read offset after = .ok (found, n)
  | invalidNumber digits _ =>
    digits.toList ≠ [] ∧ (∀ c ∈ digits.toList, c.isDigit) ∧ digits.toList <+: after
  | malformedPath _ _ | tooDeep _ => True

theorem Token.culprit_of_read {offset : Nat} {c : Char} {cs : List Char} {e : ParseError}
    (h : read offset (c :: cs) = .error e) (before : List Char) :
    e.offset = offset ∧ e.Culprit before (c :: cs) := by
  rw [read] at h
  split at h
  case h_1 => contradiction
  case h_2 =>
    split at h
    case isTrue hq =>
      split at h
      case h_1 => contradiction
      case h_2 hs =>
        obtain rfl := Except.error.inj h
        exact ⟨rfl, cs, congrArg (· :: cs) hq, stringBody?_eq_none_iff.mp hs⟩
    case isFalse =>
      split at h
      case isTrue hd =>
        split at h
        case h_1 => contradiction
        case h_2 hn =>
          simp only at h
          split at h
          case isTrue => contradiction
          case isFalse =>
            obtain rfl := Except.error.inj h
            obtain ⟨rfl, -⟩ := numberText_spelled hn
            simp only [ParseError.Culprit, String.toList_ofList]
            refine ⟨rfl, by simp [hd], ?_, List.takeWhile_prefix _⟩
            exact List.all_eq_true.mp List.all_takeWhile
      case isFalse =>
        split at h
        case isTrue => contradiction
        case isFalse =>
          obtain rfl := Except.error.inj h
          simp only [ParseError.Culprit, String.toList_ofList]
          exact ⟨rfl, symbols_ne_nil c cs, symbols_prefix _⟩

section Places

variable {text before cs : List Char} {offset : Nat} {p q : List Char → List Char → Prop}

-- A place in the text, by its offset in bytes, which is between two characters or at one of the ends.
def Stands (text : List Char) (offset : Nat) (p : List Char → List Char → Prop) : Prop :=
  ∃ before after, text = before ++ after ∧ byteLength before = offset ∧ p before after

abbrev Boundary (text : List Char) (offset : Nat) : Prop := Stands text offset fun _ _ => True

theorem Stands.mono (h : Stands text offset p) (hp : ∀ before after, p before after → q before after) :
    Stands text offset q := by
  obtain ⟨before, after, ht, ho, h⟩ := h
  exact ⟨before, after, ht, ho, hp before after h⟩

theorem Stands.boundary (h : Stands text offset p) : Boundary text offset :=
  h.mono fun _ _ _ => trivial

def ParseError.Blames (text : List Char) (e : ParseError) : Prop :=
  Stands text e.offset fun before after => e.Culprit before after

structure Lexeme.Placed (text : List Char) (l : Lexeme) : Prop where
  start : Stands text l.start fun _ after => ∃ n, Token.read l.start after = .ok (l.token, n)
  stop : Boundary text l.stop

def Lexemes.Placed (text : List Char) : Lexemes → Prop
  | done offset => Boundary text offset
  | stuck e => e.Blames text
  | cons l ts => l.Placed text ∧ ts.Placed text

theorem Lexemes.placed_scan (ht : text = before ++ cs) (fuel depth : Nat) :
    (scan fuel depth (byteLength before) cs).1.Placed text := by
  induction fuel generalizing depth before cs
  case zero => exact ⟨before, cs, ht, rfl, trivial⟩
  case succ fuel hi =>
    have hcs := List.takeWhile_append_dropWhile (p := Text.isBlank) (l := cs)
    simp only [scan, ← byteLength_append]
    rw [← hcs, ← List.append_assoc] at ht
    generalize before ++ cs.takeWhile Text.isBlank = before at *
    generalize cs.dropWhile Text.isBlank = cs at *
    split
    case isTrue => exact ⟨before, cs, ht, rfl, trivial⟩
    case isFalse hne =>
      split
      case h_1 e he =>
        cases cs
        case nil => exact absurd rfl hne
        case cons c cs =>
          obtain ⟨ho, hc⟩ := Token.culprit_of_read he before
          exact ⟨before, c :: cs, ht, ho.symm, hc⟩
      case h_2 t n hr =>
        have hstop : text = (before ++ cs.take n) ++ cs.drop n := by
          rw [List.append_assoc, List.take_append_drop, ht]
        have hl : Lexeme.Placed text ⟨t, byteLength before, byteLength (before ++ cs.take n)⟩ :=
          ⟨⟨before, cs, ht, rfl, n, hr⟩, _, _, hstop, rfl, trivial⟩
        split
        case isTrue => exact ⟨hl, hl.stop⟩
        case isFalse => exact ⟨hl, hi hstop _⟩

end Places

-- The result has the property, or the error is reported where its culprit stands.
def Blames (text : List Char) {α : Type} (p : α → Prop) : Except ParseError α → Prop
  | .ok a => p a
  | .error e => e.Blames text

theorem Blames.bind {text : List Char} {α β : Type} {p : α → Prop} {q : β → Prop} {x : Except ParseError α}
    {f : α → Except ParseError β} (h : Blames text p x) (hf : ∀ a, p a → Blames text q (f a)) :
    Blames text q (x >>= f) := by
  cases x
  case error => exact h
  case ok a => exact hf a h

theorem Blames.map {text : List Char} {α β : Type} {p : β → Prop} {x : Except ParseError α} {f : α → β}
    (h : Blames text (fun a => p (f a)) x) : Blames text p (f <$> x) :=
  h.bind fun _ ha => ha

namespace Expr

variable {text : List Char} {start opened offset room : Nat} {e : Expr} {l : Lexeme} {ts : Lexemes}

abbrev Tracks (text : List Char) (x : Except ParseError (Expr × Lexemes)) : Prop :=
  Blames text (fun y => y.2.Placed text) x

theorem blames_unexpected (hl : l.Placed text) :
    (ParseError.unexpectedToken l.token l.start).Blames text :=
  hl.start

theorem blames_unbalanced (hl : l.Placed text) {m : List Char} (hm : l.token.mark? = some m) :
    (ParseError.unbalancedBrackets l.start).Blames text := by
  refine hl.start.mono ?_
  rintro before after ⟨n, h⟩
  exact ⟨m, Token.mem_marks hm, Token.mark_of_read h hm⟩

theorem blames_unclosed {opened : Option Nat}
    (ho : ∀ offset, opened = some offset → (ParseError.unbalancedBrackets offset).Blames text)
    (hl : l.Placed text) : (ParseError.unclosed start opened (some l)).Blames text := by
  have hu := blames_unexpected hl
  unfold ParseError.unclosed
  simp only
  split
  case h_1 | h_2 | h_3 => exact ho _ rfl
  case h_4 ht | h_5 ht => exact blames_unbalanced hl (congrArg Token.mark? ht)
  case h_6 => exact hu

theorem accessor_blames (e : Expr) (ho : Boundary text opened) :
    Blames text (fun _ => True) (accessor e opened) := by
  unfold accessor
  split
  case h_1 =>
    split
    case isTrue => exact ho
    case isFalse => trivial
  case h_3 => exact ho
  all_goals trivial

section

variable (hstart : (ParseError.unterminated start).Blames text)

include hstart

theorem close_blames {token : Token} {inner : Parser}
    (ho : (ParseError.unbalancedBrackets opened).Blames text) (h : Tracks text (inner ts)) :
    Tracks text (close start opened token inner ts) := by
  refine h.bind fun y hy => ?_
  obtain ⟨e, ts⟩ := y
  cases ts
  case done => exact hstart
  case stuck => exact hy
  case cons l ts =>
    simp only
    split
    case isTrue => exact hy.2
    case isFalse => exact blames_unclosed (fun _ he => Option.some.inj he ▸ ho) hy.1

theorem accessors_blame {nested : Nat → Parser}
    (h : ∀ offset ts, Boundary text offset → ts.Placed text → Tracks text (nested offset ts)) (fuel : Nat)
    (hts : ts.Placed text) : Blames text (fun y => y.2.Placed text) (accessors start nested fuel ts) := by
  induction fuel generalizing ts
  case zero => exact hts
  case succ fuel hi =>
    unfold accessors
    split
    case h_1 => exact hts
    case h_2 => exact hts.2
    case h_3 => exact hstart
    case h_4 =>
      split
      case h_1 => exact hts.2.1.start.boundary
      case h_2 => exact (hi hts.2.2).bind fun y hy => hy
    case h_5 => exact hts.2
    case h_6 => exact hts.2.1.start.boundary
    case h_7 opened _ inner _ _ =>
      obtain ⟨hl, hinner⟩ := hts
      refine (close_blames hstart (blames_unbalanced hl rfl) (h _ _ ?reached hinner)).bind fun y hy => ?_
      case reached =>
        cases inner
        case cons => exact hinner.1.stop
        case done => exact hinner
        case stuck => exact hl.start.boundary
      refine Blames.bind (p := fun _ => True) ?_ fun step _ => (hi hy).bind fun z hz => hz
      exact accessor_blames y.1 hl.start.boundary
    case h_8 => exact hts

theorem primary_blames {nested : Nat → Parser}
    (h : ∀ offset ts, Boundary text offset → ts.Placed text → Tracks text (nested offset ts))
    (hts : ts.Placed text) : Tracks text (primary start nested ts) := by
  cases ts
  case done => exact hstart
  case stuck => exact hts
  case cons l ts =>
    obtain ⟨hl, hts⟩ := hts
    have hu := blames_unexpected hl
    obtain ⟨t, _, _⟩ := l
    cases t
    case identifier => exact (accessors_blame hstart h _ hts).bind fun y hy => hy
    case leftParen | openBinding =>
      exact close_blames hstart (blames_unbalanced hl rfl) (h _ _ hl.stop hts)
    case rightBracket | rightParen => exact blames_unbalanced hl rfl
    case int | double | string | trueWord | falseWord | nullWord => exact hts
    all_goals exact hu

section

variable {nested : Nat → Nat → Parser}
  (h : ∀ room offset ts, Boundary text offset → ts.Placed text → Tracks text (nested room offset ts))

include h

theorem signed_blames (room : Nat) (hts : ts.Placed text) : Tracks text (signed start nested room ts) := by
  induction room generalizing ts
  case zero =>
    unfold signed
    split
    case h_1 | h_2 => exact hts.1.stop
    case h_3 => exact primary_blames hstart (h 0) hts
  case succ room hi =>
    unfold signed
    split
    case h_1 | h_2 => exact (hi hts.2).bind fun y hy => hy
    case h_3 => exact primary_blames hstart (h (room + 1)) hts

omit hstart h in
theorem chain_blames {op? : Token → Option BinaryOp} {operand : Nat → Parser}
    (h : ∀ room ts, ts.Placed text → Tracks text (operand room ts)) (room : Nat) (e : Expr)
    (hts : ts.Placed text) : Tracks text (chain op? operand room e ts) := by
  induction room generalizing e ts
  case zero =>
    unfold chain
    split
    case h_1 | h_2 => exact hts
    case h_3 =>
      split
      case h_1 => exact hts
      case h_2 => exact hts.1.stop
  case succ room hi =>
    unfold chain
    split
    case h_1 | h_2 => exact hts
    case h_3 =>
      split
      case h_1 => exact hts
      case h_2 => exact (h room _ hts.2).bind fun y hy => hi _ hy

theorem layer_blames {k : Nat} (hk : k ≤ 6) (room : Nat) (hts : ts.Placed text) :
    Tracks text (layer start nested (7 - k) room ts) := by
  induction k generalizing room ts
  case zero => exact signed_blames hstart h room hts
  case succ k hi =>
    have hl : 7 - (k + 1) + 1 = 7 - k := by omega
    rw [layer_eq _ _ (by omega) (by omega), hl]
    have hi := fun room (ts : Lexemes) (hts : ts.Placed text) => hi (by omega) room hts
    exact (hi room ts hts).bind fun y hy => chain_blames hi room y.1 hy

theorem choice_blames (room : Nat) (hts : ts.Placed text) : Tracks text (choice start nested room ts) := by
  refine (layer_blames hstart h (Nat.le_refl 6) room hts).bind fun y hy => ?_
  obtain ⟨condition, ts⟩ := y
  simp only
  split
  case h_1 => exact hy
  case h_2 =>
    refine (h room _ _ hy.1.stop hy.2).bind fun z hz => ?_
    obtain ⟨whenTrue, ts⟩ := z
    simp only
    split
    case h_1 => exact hz
    case h_2 => exact hstart
    case h_3 => exact (h room _ _ hz.1.stop hz.2).bind fun w hw => hw
    case h_4 => exact blames_unexpected hz.1
  case h_3 => exact hy

end

theorem parseNested_blames (fuel room : Nat) (ho : Boundary text offset) (hts : ts.Placed text) :
    Tracks text (parseNested start fuel room offset ts) := by
  induction fuel generalizing room offset ts
  case zero => cases room <;> exact ho
  case succ fuel hi =>
    cases room
    case zero => exact ho
    case succ room => exact choice_blames hstart (fun room _ _ ho hts => hi room ho hts) room hts

theorem parseTokens_blames (hts : ts.Placed text) :
    Blames text (fun _ => True) (parseTokens start ts) := by
  unfold parseTokens
  split
  case h_1 => exact hstart
  case h_2 =>
    refine (parseNested_blames hstart maxDepth maxDepth hstart.boundary hts).bind fun y hy => ?_
    obtain ⟨e, ts⟩ := y
    simp only
    split
    case h_1 => exact hy
    case h_2 => exact hstart
    case h_3 => trivial
    case h_4 => exact blames_unclosed (fun _ he => by cases he) hy.1

end

theorem parseBinding_blames {before cs : List Char} (ht : text = before ++ (opening ++ cs))
    (hb : before.getLast? ≠ some '\\') :
    Blames text (fun _ => True) (parseBinding (byteLength before) cs) := by
  have hstart : (ParseError.unterminated (byteLength before)).Blames text :=
    ⟨before, opening ++ cs, ht, rfl, List.prefix_append _ _, hb⟩
  have ho : byteLength (before ++ opening) = byteLength before + 2 := byteLength_append _ _
  have hts := Lexemes.placed_scan (ht.trans (List.append_assoc _ _ _).symm) (cs.length + 1) 0
  rw [ho] at hts
  exact (parseTokens_blames hstart hts).bind fun _ _ => trivial

end Expr

end BindingEngine
