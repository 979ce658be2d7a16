import BindingEngine.Proofs.Expr.Layers

namespace BindingEngine

namespace ParseError

def shift (k : Nat) : ParseError → ParseError
  | unterminated offset             => unterminated (offset + k)
  | unterminatedString offset       => unterminatedString (offset + k)
  | unbalancedBrackets offset       => unbalancedBrackets (offset + k)
  | unknownOperator operator offset => unknownOperator operator (offset + k)
  | malformedPath offset flaw       => malformedPath (offset + k) flaw
  | unexpectedToken found offset    => unexpectedToken found (offset + k)
  | empty offset                    => empty (offset + k)
  | invalidNumber text offset       => invalidNumber text (offset + k)
  | tooDeep offset                  => tooDeep (offset + k)

end ParseError

def Lexeme.shift (k : Nat) (l : Lexeme) : Lexeme :=
  ⟨l.token, l.start + k, l.stop + k⟩

@[simp]
theorem Lexeme.shift_token (k : Nat) (l : Lexeme) : (l.shift k).token = l.token := rfl

def Lexemes.shift (k : Nat) : Lexemes → Lexemes
  | done offset => done (offset + k)
  | stuck e     => stuck (e.shift k)
  | cons l ts   => cons (l.shift k) (ts.shift k)

section Moved

variable {k : Nat} {α β : Type} {f : α → α} {g : β → β}

def moved (k : Nat) (f : α → α) : Except ParseError α → Except ParseError α
  | .error e => .error (e.shift k)
  | .ok a    => .ok (f a)

theorem moved_bind {x x' : Except ParseError α} {r r' : α → Except ParseError β}
    (hx : x' = moved k f x) (hr : ∀ a, r' (f a) = moved k g (r a)) :
    x' >>= r' = moved k g (x >>= r) := by
  subst hx
  cases x
  case error => rfl
  case ok a => exact hr a

end Moved

namespace Token

variable {k : Nat}

theorem read_add (offset k : Nat) (cs : List Char) :
    read (offset + k) cs = moved k id (read offset cs) := by
  unfold read
  split
  case h_1 => rfl
  case h_2 =>
    split
    case h_1 => rfl
    case h_2 =>
      split
      case isTrue => split <;> rfl
      case isFalse =>
        split
        case isTrue =>
          split
          case h_1 => rfl
          case h_2 =>
            simp only
            split <;> rfl
        case isFalse => split <;> rfl

end Token

theorem Lexemes.scan_add (fuel depth offset k : Nat) (cs : List Char) :
    scan fuel depth (offset + k) cs = Prod.map (shift k) id (scan fuel depth offset cs) := by
  induction fuel generalizing depth offset cs
  case zero => rfl
  case succ fuel hi =>
    simp only [scan, Nat.add_right_comm offset k]
    split
    case isTrue => rfl
    case isFalse =>
      rw [Token.read_add]
      cases Token.read (offset + byteLength (cs.takeWhile Text.isBlank)) (cs.dropWhile Text.isBlank)
      case error => rfl
      case ok found =>
        have hstop (stop : Nat) : offset + byteLength (cs.takeWhile Text.isBlank) + k + stop =
          offset + byteLength (cs.takeWhile Text.isBlank) + stop + k := Nat.add_right_comm _ _ _
        simp only [moved, id, hstop]
        split
        case isTrue => rfl
        case isFalse =>
          rw [hi]
          rfl

namespace Expr

variable {k start opened : Nat}

-- The second parser reads further back what the first one reads.
def Moves (k : Nat) (p p' : Parser) : Prop :=
  ∀ ts, p' (ts.shift k) = moved k (Prod.map id (Lexemes.shift k)) (p ts)

theorem unclosed_add (start : Nat) (opened : Option Nat) (l : Option Lexeme) :
    ParseError.unclosed (start + k) (opened.map (· + k)) (l.map (Lexeme.shift k)) =
      (ParseError.unclosed start opened l).shift k := by
  cases l
  case none => rfl
  case some l =>
    obtain ⟨t, _, _⟩ := l
    cases t <;> cases opened <;> rfl

theorem close_moves {token : Token} {inner inner' : Parser} (h : Moves k inner inner') :
    Moves k (close start opened token inner) (close (start + k) (opened + k) token inner') := by
  intro ts
  refine moved_bind (h ts) fun y => ?_
  obtain ⟨e, ts⟩ := y
  cases ts
  case cons l ts =>
    simp only [Prod.map, Lexemes.shift, Lexeme.shift_token]
    by_cases hl : l.token = token
    case pos =>
      simp only [hl, if_true]
      rfl
    case neg =>
      simp only [hl, if_false]
      exact congrArg Except.error (unclosed_add start (some opened) (some l))
  all_goals rfl

theorem accessor_add (e : Expr) (opened : Nat) :
    accessor e (opened + k) = moved k id (accessor e opened) := by
  unfold accessor
  split
  case h_1 => split <;> rfl
  all_goals rfl

theorem accessors_move {nested nested' : Nat → Parser}
    (h : ∀ offset, Moves k (nested offset) (nested' (offset + k))) (fuel : Nat) (ts : Lexemes) :
    accessors (start + k) nested' fuel (ts.shift k) =
      moved k (Prod.map id (Lexemes.shift k)) (accessors start nested fuel ts) := by
  induction fuel generalizing ts
  case zero => rfl
  case succ fuel hi =>
    have hbracket (reached opened : Nat) (inner : Lexemes) :
        (close (start + k) (opened + k) .rightBracket (nested' (reached + k)) (inner.shift k) >>=
          fun y => accessor y.1 (opened + k) >>= fun first =>
            accessors (start + k) nested' fuel y.2 >>= fun more => .ok (first :: more.1, more.2)) =
        moved k (Prod.map id (Lexemes.shift k))
          (close start opened .rightBracket (nested reached) inner >>= fun y =>
            accessor y.1 opened >>= fun first =>
              accessors start nested fuel y.2 >>= fun more => .ok (first :: more.1, more.2)) := by
      refine moved_bind (close_moves (h reached) inner) fun y => ?_
      refine moved_bind (accessor_add y.1 opened) fun step => ?_
      exact moved_bind (hi y.2) fun z => rfl
    cases ts
    case cons l ts =>
      obtain ⟨t, opened, _⟩ := l
      cases t
      case dot =>
        cases ts
        case cons m ts =>
          simp only [Lexemes.shift, Lexeme.shift, accessors]
          cases fieldName? m.token
          case none => rfl
          case some name => exact moved_bind (hi ts) fun y => rfl
        all_goals rfl
      case leftBracket =>
        cases ts
        case stuck => rfl
        case done offset => exact hbracket offset opened (.done offset)
        case cons m ts =>
          obtain ⟨t, _, stop⟩ := m
          cases t
          case rightBracket => rfl
          all_goals exact hbracket stop opened (.cons _ ts)
      all_goals rfl
    all_goals rfl

theorem length_shift (ts : Lexemes) : (ts.shift k).length = ts.length := by
  induction ts
  case cons hi => exact congrArg (· + 1) hi
  all_goals rfl

theorem primary_moves {nested nested' : Nat → Parser}
    (h : ∀ offset, Moves k (nested offset) (nested' (offset + k))) :
    Moves k (primary start nested) (primary (start + k) nested') := by
  intro ts
  cases ts
  case cons l ts =>
    obtain ⟨t, _, _⟩ := l
    cases t
    case identifier context =>
      simp only [Lexemes.shift, Lexeme.shift, primary, length_shift]
      exact moved_bind (accessors_move h _ ts) fun y => rfl
    case leftParen | openBinding => exact close_moves (h _) ts
    all_goals rfl
  all_goals rfl

section

variable {nested nested' : Nat → Nat → Parser}
  (h : ∀ room offset, Moves k (nested room offset) (nested' room (offset + k)))

include h

theorem signed_moves (room : Nat) :
    Moves k (signed start nested room) (signed (start + k) nested' room) := by
  intro ts
  have hp (room : Nat) : Moves k (primary start (nested room)) (primary (start + k) (nested' room)) :=
    primary_moves (h room)
  induction room generalizing ts
  case zero =>
    cases ts
    case cons l ts =>
      obtain ⟨t, _, _⟩ := l
      cases t
      case bang | minus => rfl
      all_goals exact hp 0 (.cons _ ts)
    all_goals rfl
  case succ room hi =>
    cases ts
    case cons l ts =>
      obtain ⟨t, _, _⟩ := l
      cases t
      case bang | minus => exact moved_bind (hi ts) fun y => rfl
      all_goals exact hp (room + 1) (.cons _ ts)
    all_goals rfl

omit h in
theorem chain_moves {op? : Token → Option BinaryOp} {operand operand' : Nat → Parser}
    (h : ∀ room, Moves k (operand room) (operand' room)) (room : Nat) (e : Expr) :
    Moves k (chain op? operand room e) (chain op? operand' room e) := by
  intro ts
  induction room generalizing e ts
  case zero =>
    cases ts
    case cons l ts =>
      simp only [Lexemes.shift, chain, Lexeme.shift]
      cases op? l.token <;> rfl
    all_goals rfl
  case succ room hi =>
    cases ts
    case cons l ts =>
      simp only [Lexemes.shift, chain, Lexeme.shift]
      cases op? l.token
      case none => rfl
      case some op => exact moved_bind (h room ts) fun y => hi _ _
    all_goals rfl

theorem layer_moves {n : Nat} (hn : n ≤ 6) (room : Nat) :
    Moves k (layer start nested (7 - n) room) (layer (start + k) nested' (7 - n) room) := by
  induction n generalizing room
  case zero => exact signed_moves h room
  case succ n hi =>
    have hl : 7 - (n + 1) + 1 = 7 - n := by omega
    have h₁ : 1 ≤ 7 - (n + 1) := by omega
    have h₂ : 7 - (n + 1) ≤ 6 := by omega
    rw [layer_eq start nested h₁ h₂, layer_eq (start + k) nested' h₁ h₂, hl]
    have hi := hi (Nat.le_of_succ_le hn)
    intro ts
    refine moved_bind (hi room ts) fun y => ?_
    exact chain_moves hi room y.1 y.2

theorem choice_moves (room : Nat) :
    Moves k (choice start nested room) (choice (start + k) nested' room) := by
  intro ts
  refine moved_bind (layer_moves h (Nat.le_refl 6) room ts) fun y => ?_
  obtain ⟨condition, ts⟩ := y
  cases ts
  case cons l ts =>
    obtain ⟨t, _, stop⟩ := l
    cases t
    case question =>
      refine moved_bind (h room stop ts) fun y => ?_
      obtain ⟨whenTrue, ts⟩ := y
      cases ts
      case cons m ts =>
        obtain ⟨t, _, stop⟩ := m
        cases t
        case colon => exact moved_bind (h room stop ts) fun y => rfl
        all_goals rfl
      all_goals rfl
    all_goals rfl
  all_goals rfl

end

theorem parseNested_moves (fuel room offset : Nat) :
    Moves k (parseNested start fuel room offset) (parseNested (start + k) fuel room (offset + k)) := by
  intro ts
  induction fuel generalizing room offset ts
  case zero => cases room <;> rfl
  case succ fuel hi =>
    cases room
    case zero => rfl
    case succ room => exact choice_moves hi room ts

theorem parseTokens_add (start : Nat) (ts : Lexemes) :
    parseTokens (start + k) (ts.shift k) = moved k (Prod.map id (· + k)) (parseTokens start ts) := by
  unfold parseTokens
  split
  case h_1 hts =>
    cases ts
    case cons l ts =>
      obtain ⟨t, _, _⟩ := l
      cases hts
      rfl
    all_goals cases hts
  case h_2 hne =>
    split
    case h_1 => exact absurd rfl (hne _ _ _)
    case h_2 =>
      refine moved_bind (parseNested_moves maxDepth maxDepth start ts) fun y => ?_
      obtain ⟨e, ts⟩ := y
      cases ts
      case cons l ts =>
        obtain ⟨t, _, _⟩ := l
        cases t <;> rfl
      all_goals rfl

theorem parseBinding_add (start k : Nat) (cs : List Char) : parseBinding (start + k) cs =
    moved k (Prod.map id (Prod.map (· + k) id)) (parseBinding start cs) := by
  have hs : start + k + 2 = start + 2 + k := Nat.add_right_comm _ _ _
  simp only [parseBinding, hs, Lexemes.scan_add]
  exact moved_bind (parseTokens_add start _) fun y => rfl

end Expr

end BindingEngine
