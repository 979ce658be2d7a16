import BindingEngine.Expr.Parser

namespace BindingEngine

def UnaryOp.token : UnaryOp → Token
  | not => .bang
  | neg => .minus

namespace BinaryOp

def rank : BinaryOp → Nat
  | or                => 1
  | and               => 2
  | eq | ne           => 3
  | lt | le | gt | ge => 4
  | add | sub         => 5
  | mul | div | rem   => 6

theorem rank_pos (op : BinaryOp) : 1 ≤ op.rank := by
  cases op <;> decide

theorem rank_le (op : BinaryOp) : op.rank ≤ 6 := by
  cases op <;> decide

def token : BinaryOp → Token
  | eq  => .eq
  | ne  => .ne
  | lt  => .lt
  | le  => .le
  | gt  => .gt
  | ge  => .ge
  | and => .and
  | or  => .or
  | add => .plus
  | sub => .minus
  | mul => .star
  | div => .slash
  | rem => .percent

end BinaryOp

namespace Token

-- A string between its quotes. A backslash stands before every backslash and every quote.
def escaped (cs : List Char) : List Char :=
  cs.flatMap fun c => if c = '\\' ∨ c = '\'' then ['\\', c] else [c]

def spelling : Token → List Char
  | identifier name => name.toList
  | int i           => Nat.toDigits 10 i.toNatClampNeg
  | double x        => x.plain.toList
  | string s        => '\'' :: escaped s.toList ++ ['\'']
  | trueWord        => ['t', 'r', 'u', 'e']
  | falseWord       => ['f', 'a', 'l', 's', 'e']
  | nullWord        => ['n', 'u', 'l', 'l']
  | dot             => ['.']
  | leftBracket     => ['[']
  | rightBracket    => [']']
  | leftParen       => ['(']
  | rightParen      => [')']
  | openBinding     => ['@', '{']
  | closeBrace      => ['}']
  | question        => ['?']
  | colon           => [':']
  | bang            => ['!']
  | eq              => ['=', '=']
  | ne              => ['!', '=']
  | lt              => ['<']
  | le              => ['<', '=']
  | gt              => ['>']
  | ge              => ['>', '=']
  | and             => ['&', '&']
  | or              => ['|', '|']
  | plus            => ['+']
  | minus           => ['-']
  | star            => ['*']
  | slash           => ['/']
  | percent         => ['%']

def joins : Token → Char → Bool
  | identifier _, c | trueWord, c | falseWord, c | nullWord, c => isIdentifierPart c
  | int _, c                                                   => c.isDigit || c = '.'
  | bang, c | lt, c | gt, c                                    => c = '='
  | _, _                                                       => false

-- Whether the token opens a level: operators, signs, question marks, parentheses and brackets.
def nests : Token → Bool
  | leftParen | leftBracket | question | bang => true
  | eq | ne | lt | le | gt | ge | and | or    => true
  | plus | minus | star | slash | percent     => true
  | _                                         => false

end Token

-- The text of a binding behind its opening mark: the tokens and the closing brace, with any blanks
-- between them, and some wherever two tokens would run together.
inductive Written : List Token → List Char → Prop
  | close {blanks : List Char} : (∀ c ∈ blanks, Text.isBlank c) → Written [] (blanks ++ ['}'])
  | token {blanks : List Char} {t : Token} {ts : List Token} {cs : List Char} :
    (∀ c ∈ blanks, Text.isBlank c) → (∀ c ∈ cs.head?, ¬t.joins c) → Written ts cs →
    Written (t :: ts) (blanks ++ (t.spelling ++ cs))

def spaced (ts : List Token) : List Char :=
  ts.flatMap (fun t => ' ' :: t.spelling) ++ [' ', '}']

theorem written_spaced (ts : List Token) : Written ts (spaced ts) := by
  have hb : ∀ c ∈ [' '], Text.isBlank c := by simp [Text.isBlank]
  induction ts
  case nil => exact .close hb
  case cons t ts ih =>
    have hh : ∀ c ∈ (spaced ts).head?, ¬t.joins c := by
      have hs : (spaced ts).head? = some ' ' := by cases ts <;> rfl
      rintro c hc
      obtain rfl : ' ' = c := by simpa [hs] using hc
      cases t <;> exact Bool.false_ne_true
    simpa [spaced] using Written.token hb hh ih

namespace Expr

def rank : Expr → Nat
  | conditional ..  => 0
  | binary op _ _   => op.rank
  | _               => 7

theorem rank_le (e : Expr) : e.rank ≤ 7 := by
  cases e
  case conditional    => exact Nat.zero_le 7
  case binary op _ _  => exact Nat.le_succ_of_le op.rank_le
  all_goals exact Nat.le_refl 7

-- The tokens of an expression of some rank where one of rank `k` or tighter is due.
def grouped (k rank : Nat) (ts : List Token) : List Token :=
  if rank < k then .leftParen :: (ts ++ [.rightParen]) else ts

theorem grouped_of_le {k rank : Nat} (h : k ≤ rank) (ts : List Token) : grouped k rank ts = ts :=
  if_neg (Nat.not_lt.mpr h)

theorem grouped_succ {k rank : Nat} (h : rank ≠ k) (ts : List Token) :
    grouped (k + 1) rank ts = grouped k rank ts := by
  have hk : rank < k + 1 ↔ rank < k := by omega
  simp only [grouped, hk]

def literalTokens : Value → List Token
  | .null     => [.nullWord]
  | .bool b   => [if b then .trueWord else .falseWord]
  | .int i    => if i < 0 then [.minus, .int (-i)] else [.int i]
  | .string s => [.string s]
  | _         => []

-- A key that is an identifier may be written as a field. `quoted` are the keys that are written in
-- brackets all the same.
def keyTokens (quoted : String → Bool) (k : String) : List Token :=
  if isIdentifier k.toList && !quoted k then [.dot, .word k]
  else [.leftBracket, .string k, .rightBracket]

section

variable (quoted : String → Bool)

mutual

def tokens : Expr → List Token
  | literal v             => literalTokens v
  | read context steps    => .identifier context :: stepTokens steps
  | unary op operand      => op.token :: grouped 7 operand.rank (tokens operand)
  | binary op left right  =>
    grouped op.rank left.rank (tokens left) ++
      op.token :: grouped (op.rank + 1) right.rank (tokens right)
  | conditional condition whenTrue whenFalse =>
    grouped 1 condition.rank (tokens condition) ++
      .question :: (tokens whenTrue ++ .colon :: tokens whenFalse)

def stepTokens : List Accessor → List Token
  | []                         => []
  | .static (.key k) :: rest   => keyTokens quoted k ++ stepTokens rest
  | .static (.index i) :: rest =>
    .leftBracket :: .int i.toInt64 :: .rightBracket :: stepTokens rest
  | .computed e :: rest        => .leftBracket :: (tokens e ++ .rightBracket :: stepTokens rest)

end

end

def isLiteral : Expr → Bool
  | literal _ => true
  | _         => false

def isNumber : Expr → Bool
  | literal (.int _) | literal (.double _) => true
  | _                                      => false

-- The least integer has no literal, and neither have doubles, lists and maps here.
def WritableValue : Value → Prop
  | .null | .bool _ | .string _ => True
  | .int i                      => i ≠ Int64.minValue
  | _                           => False

mutual

-- What can be written so that it is the same when it is read again:
-- 1. the name of a context is an identifier, and none of the words for values
-- 2. a sign does not stand before a number, which it would become a part of
-- 3. a computed accessor is no literal, which would be a position or a key
def Writable : Expr → Prop
  | literal v            => WritableValue v
  | read context steps   =>
    isIdentifier context.toList ∧ context ∉ ["true", "false", "null"] ∧ WritableSteps steps
  | unary op operand     => operand.Writable ∧ (op = .neg → ¬operand.isNumber)
  | binary _ left right  => left.Writable ∧ right.Writable
  | conditional condition whenTrue whenFalse =>
    condition.Writable ∧ whenTrue.Writable ∧ whenFalse.Writable

def WritableSteps : List Accessor → Prop
  | []                         => True
  | .static (.key _) :: rest   => WritableSteps rest
  | .static (.index i) :: rest => i.toNat ≤ 9223372036854775807 ∧ WritableSteps rest
  | .computed e :: rest        => e.Writable ∧ ¬e.isLiteral ∧ WritableSteps rest

end

def groupedDepth (k rank depth : Nat) : Nat :=
  if rank < k then depth + 1 else depth

theorem groupedDepth_of_le {k rank : Nat} (h : k ≤ rank) (depth : Nat) :
    groupedDepth k rank depth = depth :=
  if_neg (Nat.not_lt.mpr h)

theorem groupedDepth_succ {k rank : Nat} (h : rank ≠ k) (depth : Nat) :
    groupedDepth (k + 1) rank depth = groupedDepth k rank depth := by
  have hk : rank < k + 1 ↔ rank < k := by omega
  simp only [groupedDepth, hk]

theorem le_groupedDepth (k rank n : Nat) : n ≤ groupedDepth k rank n := by
  unfold groupedDepth
  split <;> omega

def chainLength (k : Nat) : Expr → Nat
  | binary op left _ => if op.rank = k then left.chainLength k + 1 else 0
  | _                => 0

theorem chainLength_eq_zero {k : Nat} {e : Expr} (h : e.rank ≠ k) : e.chainLength k = 0 := by
  cases e
  case binary op left right => exact if_neg h
  all_goals rfl

def literalDepth : Value → Nat
  | .int i => if i < 0 then 1 else 0
  | _      => 0

section

variable (quoted : String → Bool)

mutual

-- How many levels a written expression opens before it closes them. Every operator of a chain opens
-- one, so that the last of the operands is as deep as the chain is long.
def depth : Expr → Nat
  | literal v            => literalDepth v
  | read _ steps         => stepDepth steps
  | unary _ operand      => groupedDepth 7 operand.rank (depth operand) + 1
  | binary op left right =>
    max (groupedDepth op.rank left.rank (depth left))
      (left.chainLength op.rank + 1 + groupedDepth (op.rank + 1) right.rank (depth right))
  | conditional condition whenTrue whenFalse =>
    max (groupedDepth 1 condition.rank (depth condition))
      (max (depth whenTrue) (depth whenFalse) + 1)

def stepDepth : List Accessor → Nat
  | []                         => 0
  | .static (.key k) :: rest   =>
    max (if isIdentifier k.toList && !quoted k then 0 else 1) (stepDepth rest)
  | .static (.index _) :: rest => max 1 (stepDepth rest)
  | .computed e :: rest        => max (depth e + 1) (stepDepth rest)

end

end

end Expr

end BindingEngine
