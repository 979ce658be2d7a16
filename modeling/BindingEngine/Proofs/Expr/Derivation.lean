import BindingEngine.Proofs.Expr.Height

namespace BindingEngine

namespace Token

def literal? : Token → Option Value
  | int i     => some (.int i)
  | double x  => some (.double x)
  | string s  => some (.string s)
  | trueWord  => some (.bool true)
  | falseWord => some (.bool false)
  | nullWord  => some .null
  | _         => none

def closing? : Token → Option Token
  | leftParen   => some rightParen
  | openBinding => some closeBrace
  | _           => none

end Token

namespace Expr

mutual

-- An expression is made of the first tokens, and the others follow.
inductive Derives : Lexemes → Expr → Lexemes → Prop
  | literal {l : Lexeme} {v : Value} {ts : Lexemes} :
    l.token.literal? = some v → Derives (.cons l ts) (literal v) ts
  | read {l : Lexeme} {context : String} {steps : List Accessor} {ts ts' : Lexemes} :
    l.token = .identifier context → DerivesSteps ts steps ts' →
    Derives (.cons l ts) (read context steps) ts'
  | group {l m : Lexeme} {e : Expr} {ts ts' : Lexemes} :
    l.token.closing? = some m.token → Derives ts e (.cons m ts') → Derives (.cons l ts) e ts'
  | signed {l : Lexeme} {op : UnaryOp} {e : Expr} {ts ts' : Lexemes} :
    l.token = op.token → Derives ts e ts' → Derives (.cons l ts) (signedBy op e) ts'
  | binary {l : Lexeme} {op : BinaryOp} {left right : Expr} {ts ts' ts'' : Lexemes} :
    Derives ts left (.cons l ts') → l.token = op.token → Derives ts' right ts'' →
    Derives ts (binary op left right) ts''
  | conditional {l m : Lexeme} {condition whenTrue whenFalse : Expr} {ts₁ ts₂ ts₃ ts₄ : Lexemes} :
    Derives ts₁ condition (.cons l ts₂) → l.token = .question →
    Derives ts₂ whenTrue (.cons m ts₃) → m.token = .colon → Derives ts₃ whenFalse ts₄ →
    Derives ts₁ (conditional condition whenTrue whenFalse) ts₄

inductive DerivesSteps : Lexemes → List Accessor → Lexemes → Prop
  | nil (ts : Lexemes) : DerivesSteps ts [] ts
  | field {l m : Lexeme} {name : String} {steps : List Accessor} {ts ts' : Lexemes} :
    l.token = .dot → fieldName? m.token = some name → DerivesSteps ts steps ts' →
    DerivesSteps (.cons l (.cons m ts)) (.static (.key name) :: steps) ts'
  | bracket {l m : Lexeme} {e : Expr} {step : Accessor} {steps : List Accessor}
      {ts ts' ts'' : Lexemes} :
    l.token = .leftBracket → Derives ts e (.cons m ts') → m.token = .rightBracket →
    accessor e l.start = .ok step → DerivesSteps ts' steps ts'' →
    DerivesSteps (.cons l ts) (step :: steps) ts''

end

abbrev Derived (ts : Lexemes) (x : Except ParseError (Expr × Lexemes)) : Prop :=
  Returns (fun y => Derives ts y.1 y.2) x

section

variable {start opened room : Nat} {ts ts' : Lexemes} {e : Expr}

theorem token_of_opAt? {k : Nat} {t : Token} {op : BinaryOp} (h : opAt? k t = some op) :
    t = op.token := by
  unfold opAt? at h
  split at h <;> cases t <;> cases h <;> rfl

theorem close_derives {token : Token} {inner : Parser} (h : Derived ts (inner ts)) :
    Returns (fun y => ∃ m : Lexeme, m.token = token ∧ Derives ts y.1 (.cons m y.2))
      (close start opened token inner ts) := by
  refine h.bind fun y hy => ?_
  obtain ⟨e, ts⟩ := y
  cases ts
  case cons m ts =>
    simp only
    split
    case isTrue hm => exact .ok ⟨m, hm, hy⟩
    case isFalse => exact .error _
  all_goals exact .error _

theorem accessors_derive {nested : Nat → Parser} (h : ∀ offset ts, Derived ts (nested offset ts))
    (fuel : Nat) (ts : Lexemes) :
    Returns (fun y => DerivesSteps ts y.1 y.2) (accessors start nested fuel ts) := by
  induction fuel generalizing ts
  case zero => exact .ok (.nil ts)
  case succ fuel ih =>
    unfold accessors
    split
    case h_4 =>
      split
      case h_1 => exact .error _
      case h_2 hm => exact (ih _).bind fun y hy => .ok (.field rfl hm hy)
    case h_7 =>
      refine (close_derives (h _ _)).bind fun y hy => ?_
      obtain ⟨m, hm, he⟩ := hy
      refine Returns.bind (p := fun step => accessor y.1 _ = .ok step) (fun _ hs => hs) fun step hs => ?_
      exact (ih _).bind fun z hz => .ok (.bracket rfl he hm hs hz)
    case h_8 => exact .ok (.nil _)
    all_goals exact .error _

theorem primary_derives {nested : Nat → Parser} (h : ∀ offset ts, Derived ts (nested offset ts))
    (ts : Lexemes) : Derived ts (primary start nested ts) := by
  cases ts
  case cons l ts =>
    obtain ⟨t, _, _⟩ := l
    cases t
    case identifier context => exact (accessors_derive h _ ts).bind fun y hy => .ok (.read rfl hy)
    case leftParen | openBinding =>
      refine (close_derives (h _ ts)).mono fun y hy => ?_
      obtain ⟨m, hm, he⟩ := hy
      exact .group (congrArg some hm.symm) he
    case int | double | string | trueWord | falseWord | nullWord => exact .ok (.literal rfl)
    all_goals exact .error _
  all_goals exact .error _

section

variable {nested : Nat → Nat → Parser} (h : ∀ room offset ts, Derived ts (nested room offset ts))

include h

theorem signed_derives (room : Nat) (ts : Lexemes) : Derived ts (signed start nested room ts) := by
  induction room generalizing ts
  case zero =>
    unfold signed
    split
    case h_3 => exact primary_derives (h 0) _
    all_goals exact .error _
  case succ room ih =>
    unfold signed
    split
    case h_1 => exact (ih _).bind fun y hy => .ok (@Derives.signed _ .not _ _ _ rfl hy)
    case h_2 => exact (ih _).bind fun y hy => .ok (@Derives.signed _ .neg _ _ _ rfl hy)
    case h_3 => exact primary_derives (h (room + 1)) _

omit h in
theorem chain_derives {k : Nat} {operand : Nat → Parser}
    (h : ∀ room ts, Derived ts (operand room ts)) (he : Derives ts e ts') (room : Nat) :
    Derived ts (chain (opAt? k) operand room e ts') := by
  induction room generalizing e ts'
  case zero =>
    unfold chain
    split
    case h_1 => exact .error _
    case h_2 => exact .ok he
    case h_3 =>
      split
      case h_1 => exact .ok he
      case h_2 => exact .error _
  case succ room ih =>
    unfold chain
    split
    case h_1 => exact .error _
    case h_2 => exact .ok he
    case h_3 =>
      split
      case h_1 => exact .ok he
      case h_2 op ho => exact (h room _).bind fun y hy => ih (.binary he (token_of_opAt? ho) hy)

theorem layer_derives {k : Nat} (hk : k ≤ 6) (room : Nat) (ts : Lexemes) :
    Derived ts (layer start nested (7 - k) room ts) := by
  induction k generalizing room ts
  case zero => exact signed_derives h room ts
  case succ k ih =>
    have hl : 7 - (k + 1) + 1 = 7 - k := by omega
    rw [layer_eq _ _ (by omega) (by omega), hl]
    exact (ih (by omega) room ts).bind fun y hy => chain_derives (ih (by omega)) hy room

theorem choice_derives (room : Nat) (ts : Lexemes) : Derived ts (choice start nested room ts) := by
  refine (layer_derives h (Nat.le_refl 6) room ts).bind fun y hc => ?_
  obtain ⟨condition, ts⟩ := y
  simp only
  split
  case h_1 => exact .error _
  case h_2 =>
    refine (h room _ _).bind fun z ht => ?_
    obtain ⟨whenTrue, ts⟩ := z
    simp only
    split
    case h_3 => exact (h room _ _).bind fun z hf => .ok (.conditional hc rfl ht rfl hf)
    all_goals exact .error _
  case h_3 => exact .ok hc

end

theorem parseNested_derives (fuel room offset : Nat) (ts : Lexemes) :
    Derived ts (parseNested start fuel room offset ts) := by
  induction fuel generalizing room offset ts
  case zero => cases room <;> exact .error _
  case succ fuel ih =>
    cases room
    case zero => exact .error _
    case succ room => exact choice_derives ih room ts

end

end Expr

end BindingEngine
