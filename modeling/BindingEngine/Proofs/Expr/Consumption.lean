import Mathlib.Data.List.Forall2
import BindingEngine.Expr.Evaluation
import BindingEngine.Proofs.Expr.Derivation
import BindingEngine.Proofs.Expr.Scanning

namespace BindingEngine

namespace Lexemes

-- Tokens are taken away, with so many quotes in their strings at least.
def Taken (ts ts' : Lexemes) (n : Nat) : Prop :=
  ∃ ls, ts = prepend ls ts' ∧ n ≤ quotes ls

namespace Taken

variable {ts ts' ts'' : Lexemes} {l : Lexeme} {m n : Nat}

theorem refl (ts : Lexemes) : Taken ts ts 0 :=
  ⟨[], rfl, Nat.zero_le _⟩

theorem trans (h : Taken ts ts' m) (h' : Taken ts' ts'' n) : Taken ts ts'' (m + n) := by
  obtain ⟨ls, rfl, hm⟩ := h
  obtain ⟨ls', rfl, hn⟩ := h'
  exact ⟨ls ++ ls', (prepend_append ls ls' ts'').symm, quotes_append ls ls' ▸ Nat.add_le_add hm hn⟩

theorem mono (h : Taken ts ts' m) (hn : n ≤ m) : Taken ts ts' n := by
  obtain ⟨ls, rfl, hm⟩ := h
  exact ⟨ls, rfl, Nat.le_trans hn hm⟩

theorem single (l : Lexeme) (ts : Lexemes) : Taken (.cons l ts) ts l.token.quotes :=
  ⟨[l], rfl, Nat.le_refl _⟩

theorem cons (h : Taken ts ts' n) : Taken (.cons l ts) ts' n := by
  obtain ⟨ls, rfl, hn⟩ := h
  exact ⟨l :: ls, rfl, Nat.le_trans hn (Nat.le_add_left _ _)⟩

end Taken

end Lexemes

namespace Expr

open Lexemes (Taken)

mutual

-- The quotes in the strings of an expression. Its keys are left out, which no value comes from.
def quotes : Expr → Nat
  | literal v => ((v.string?.map String.toList).getD []).count '\''
  | read _ steps => stepQuotes steps
  | unary _ operand => operand.quotes
  | binary _ left right => left.quotes + right.quotes
  | conditional condition whenTrue whenFalse => condition.quotes + whenTrue.quotes + whenFalse.quotes

def stepQuotes : List Accessor → Nat
  | [] => 0
  | .static _ :: rest => stepQuotes rest
  | .computed e :: rest => e.quotes + stepQuotes rest

end

abbrev Consumes (ts : Lexemes) (x : Except ParseError (Expr × Lexemes)) : Prop :=
  Returns (fun y => Taken ts y.2 y.1.quotes) x

section

variable {e : Expr}

theorem quotes_signedBy (op : UnaryOp) (e : Expr) : (signedBy op e).quotes = e.quotes := by
  cases op
  case not => rfl
  case neg =>
    rw [signedBy, negated.eq_def]
    split
    case h_1 => split <;> rfl
    all_goals rfl

theorem quotes_of_literal? {t : Token} {v : Value} (h : t.literal? = some v) :
    (literal v).quotes = t.quotes := by
  cases t <;> cases h <;> rfl

theorem stepQuotes_cons_le {step : Accessor} {opened : Nat} (h : accessor e opened = .ok step)
    (rest : List Accessor) : stepQuotes (step :: rest) ≤ e.quotes + stepQuotes rest := by
  unfold accessor at h
  split at h
  case h_1 =>
    split at h
    case isTrue => contradiction
    case isFalse =>
      obtain rfl := Except.ok.inj h
      exact Nat.le_add_left _ _
  case h_3 => contradiction
  case h_2 =>
    obtain rfl := Except.ok.inj h
    exact Nat.le_add_left _ _
  case h_4 =>
    obtain rfl := Except.ok.inj h
    exact Nat.le_refl _

mutual

theorem taken_of_derives {ts ts' : Lexemes} {e : Expr} (h : Derives ts e ts') :
    Taken ts ts' e.quotes := by
  match h with
  | .literal hl => exact quotes_of_literal? hl ▸ .single _ _
  | .read _ hs => exact (taken_of_derivesSteps hs).cons
  | .group _ he =>
    exact ((taken_of_derives he).trans (.single _ _)).cons.mono (Nat.le_add_right _ _)
  | @Derives.signed _ op e _ _ _ he => exact quotes_signedBy op e ▸ (taken_of_derives he).cons
  | .binary hl _ hr => exact (taken_of_derives hl).trans (taken_of_derives hr).cons
  | .conditional hc _ ht _ hf =>
    exact ((taken_of_derives hc).trans (taken_of_derives ht).cons).trans (taken_of_derives hf).cons

theorem taken_of_derivesSteps {ts ts' : Lexemes} {steps : List Accessor}
    (h : DerivesSteps ts steps ts') : Taken ts ts' (stepQuotes steps) := by
  match h with
  | .nil ts => exact .refl ts
  | .field _ _ hs => exact (taken_of_derivesSteps hs).cons.cons
  | .bracket _ he _ ha hs =>
    exact ((taken_of_derives he).trans (taken_of_derivesSteps hs).cons).cons.mono
      (stepQuotes_cons_le ha _)

end

theorem parseNested_consumes {start : Nat} (fuel room offset : Nat) (ts : Lexemes) :
    Consumes ts (parseNested start fuel room offset ts) :=
  (parseNested_derives fuel room offset ts).mono fun _ hy => taken_of_derives hy

end

section Evaluation

variable {resolve : Resolver} {s : String} {a b v w : Value}

def segment? (resolve : Resolver) : Accessor → Option Segment
  | .static s => some s
  | .computed e => (e.evaluate resolve).segment?

theorem follow?_cons (step : Accessor) (steps : List Accessor) (v : Value) :
    follow? resolve (step :: steps) v = (segment? resolve step).bind fun s =>
      (v.step? s).bind (follow? resolve steps) := by
  cases step
  case static => rfl
  case computed e =>
    rw [follow?, segment?]
    cases (e.evaluate resolve).segment? <;> rfl

theorem follow?_eq_some {steps : List Accessor} (h : follow? resolve steps v = some w) :
    ∃ p, List.Forall₂ (fun step s => segment? resolve step = some s) steps p ∧ v.get? p = some w := by
  induction steps generalizing v
  case nil => exact ⟨[], .nil, h⟩
  case cons step steps hi =>
    rw [follow?_cons] at h
    obtain ⟨s, hs, h⟩ := Option.bind_eq_some_iff.mp h
    obtain ⟨u, hu, h⟩ := Option.bind_eq_some_iff.mp h
    obtain ⟨p, hp, hv⟩ := hi h
    exact ⟨s :: p, .cons hs hp, Option.bind_eq_some_iff.mpr ⟨u, hu, hv⟩⟩

theorem ofOption_ne_string {x : Option Value} (h : ∀ v, x = some v → v ≠ .string s) :
    Value.ofOption x ≠ .string s := by
  cases x
  case none => exact Value.noConfusion
  case some v => exact h v rfl

theorem ofFinite_ne_string (x : Binary64) : Value.ofFinite x ≠ .string s := by
  unfold Value.ofFinite
  split <;> exact Value.noConfusion

theorem ofInt?_ne_string (i : Int) : Value.ofInt? i ≠ some (.string s) := by
  unfold Value.ofInt?
  split <;> simp

theorem arithmetic_ne_string {exact : Int → Int → Option Int}
    {inexact : Binary64 → Binary64 → Binary64} (a b : Value) :
    BinaryOp.arithmetic exact inexact a b ≠ .string s := by
  simp only [BinaryOp.arithmetic]
  split
  case h_1 v hv =>
    rintro rfl
    split at hv
    case h_1 =>
      obtain ⟨i, _, hi⟩ := Option.bind_eq_some_iff.mp hv
      exact ofInt?_ne_string i hi
    case h_2 => contradiction
  case h_2 =>
    split
    case h_1 => exact ofFinite_ne_string _
    case h_2 => exact Value.noConfusion

theorem unary_ne_string (op : UnaryOp) (v : Value) : op.apply v ≠ .string s := by
  unfold UnaryOp.apply
  split
  case h_2 i =>
    refine ofOption_ne_string fun w hw => ?_
    rintro rfl
    exact ofInt?_ne_string _ hw
  all_goals exact Value.noConfusion

theorem string_of_apply {op : BinaryOp} (h : op.apply a b = .string s) :
    ∃ s₁ s₂, a = .string s₁ ∧ b = .string s₂ ∧ s = s₁ ++ s₂ := by
  have hbool {x : Option Bool} : Value.ofOption (x.map .bool) ≠ .string s := by
    cases x <;> exact Value.noConfusion
  cases op
  case add =>
    simp only [BinaryOp.apply] at h
    split at h
    case h_1 s₁ s₂ => exact ⟨s₁, s₂, rfl, rfl, (Value.string.inj h).symm⟩
    case h_2 => exact absurd h (arithmetic_ne_string a b)
  case sub | mul =>
    simp only [BinaryOp.apply] at h
    exact absurd h (arithmetic_ne_string a b)
  case div | rem =>
    simp only [BinaryOp.apply] at h
    split at h
    case isTrue => contradiction
    case isFalse => exact absurd h (arithmetic_ne_string a b)
  case and | or => contradiction
  all_goals exact absurd h hbool

def Stringless (resolve : Resolver) : Prop :=
  ∀ id v p s, resolve id = some v → v.get? p ≠ some (.string s)

theorem count_evaluate (hr : Stringless resolve) (e : Expr) {s : String}
    (h : e.evaluate resolve = .string s) : s.toList.count '\'' ≤ e.quotes := by
  match e with
  | .literal v =>
    obtain rfl : v = .string s := h
    exact Nat.le_refl _
  | .read context steps =>
    rw [evaluate] at h
    split at h
    case h_1 => contradiction
    case h_2 v hv =>
      refine absurd h (ofOption_ne_string fun w hw => ?_)
      rintro rfl
      obtain ⟨p, _, hp⟩ := follow?_eq_some hw
      exact hr context v p s hv hp
  | .unary op operand =>
    rw [evaluate] at h
    exact absurd h (unary_ne_string op _)
  | .binary op left right =>
    rw [quotes]
    cases op
    case and | or =>
      simp only [evaluate] at h
      split at h
      case h_2 => split at h <;> contradiction
      all_goals contradiction
    all_goals
      obtain ⟨s₁, s₂, hl, hr', rfl⟩ := string_of_apply h
      have hl := count_evaluate hr left hl
      have hr := count_evaluate hr right hr'
      rw [String.toList_append, List.count_append]
      omega
  | .conditional condition whenTrue whenFalse =>
    rw [quotes]
    rw [evaluate] at h
    split at h
    case h_1 =>
      have ht := count_evaluate hr whenTrue h
      omega
    case h_2 =>
      have hf := count_evaluate hr whenFalse h
      omega
    case h_3 => contradiction

end Evaluation

end Expr

end BindingEngine
