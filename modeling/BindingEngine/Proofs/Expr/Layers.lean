import BindingEngine.Proofs.Expr.Rendering

namespace BindingEngine

namespace Token

-- The rank of the expressions that a token goes on with when it stands behind an operand.
def rank? : Token → Option Nat
  | question               => some 0
  | or                     => some 1
  | and                    => some 2
  | eq | ne                => some 3
  | lt | le | gt | ge      => some 4
  | plus | minus           => some 5
  | star | slash | percent => some 6
  | dot | leftBracket      => some 7
  | _                      => none

end Token

-- No expression of rank `k` or tighter goes on here.
def Lexemes.Ends (k : Nat) : Lexemes → Prop
  | cons l _ => ∀ j ∈ l.token.rank?, j < k
  | _        => False

theorem Lexemes.Ends.mono {j k : Nat} {ts : Lexemes} (h : ts.Ends j) (hk : j ≤ k) : ts.Ends k := by
  cases ts
  case cons l ts => exact fun i hi => Nat.lt_of_lt_of_le (h i hi) hk
  all_goals exact h

-- The result is `r` if the levels are enough, and the report that they are not otherwise.
def Leads {α : Type} (enough : Prop) (r' r : Except ParseError α) : Prop :=
  (enough → r' = r) ∧ (¬enough → ∃ offset, r' = .error (.tooDeep offset))

namespace Leads

variable {α β : Type} {p q : Prop} {a b c : Except ParseError α}

theorem of_eq (hp : p) (h : a = b) : Leads p a b :=
  ⟨fun _ => h, fun hn => absurd hp hn⟩

theorem tooDeep (hp : ¬p) (offset : Nat) : Leads p (.error (.tooDeep offset)) a :=
  ⟨fun h => absurd h hp, fun _ => ⟨offset, rfl⟩⟩

theorem congr (h : Leads p a b) (hq : p ↔ q) : Leads q a b :=
  ⟨fun hp => h.1 (hq.mpr hp), fun hp => h.2 (mt hq.mp hp)⟩

theorem trans (h : Leads p a b) (h' : Leads q b c) : Leads (p ∧ q) a c := by
  by_cases hp : p
  case pos => exact (h.1 hp ▸ h').congr (by simp [hp])
  case neg => exact ⟨fun hn => absurd hn.1 hp, fun _ => h.2 hp⟩

theorem bind {x : Except ParseError β} {y : β} {f : β → Except ParseError α}
    (h : Leads p x (.ok y)) (h' : Leads q (f y) a) : Leads (p ∧ q) (x >>= f) a := by
  by_cases hp : p
  case pos =>
    rw [h.1 hp]
    exact h'.congr (by simp [hp])
  case neg =>
    obtain ⟨offset, hx⟩ := h.2 hp
    exact ⟨fun hn => absurd hn.1 hp, fun _ => ⟨offset, hx ▸ rfl⟩⟩

theorem bind_eq {x : Except ParseError β} {y : β} {f : β → Except ParseError α}
    (h : Leads p x (.ok y)) (h' : f y = a) : Leads p (x >>= f) a :=
  (h.bind (.of_eq trivial h')).congr (and_iff_left trivial)

theorem bind_ok {x : Except ParseError β} {y : β} {f : β → Except ParseError α} (hx : x = .ok y)
    (h : Leads p (f y) a) : Leads p (x >>= f) a :=
  hx ▸ h

end Leads

namespace Expr

def opAt? : Nat → Token → Option BinaryOp
  | 1 => disjunctionOp?
  | 2 => conjunctionOp?
  | 3 => equalityOp?
  | 4 => comparisonOp?
  | 5 => sumOp?
  | 6 => productOp?
  | _ => fun _ => none

theorem rank?_of_opAt? {k : Nat} {t : Token} {op : BinaryOp} (h : opAt? k t = some op) :
    t.rank? = some k := by
  unfold opAt? at h
  split at h <;> cases t <;>
    simp_all [disjunctionOp?, conjunctionOp?, equalityOp?, comparisonOp?, sumOp?, productOp?,
      Token.rank?]

def signedBy : UnaryOp → Expr → Expr
  | .not, e => unary .not e
  | .neg, e => negated e

theorem opAt?_token (op : BinaryOp) : opAt? op.rank op.token = some op := by
  cases op <;> rfl

section

variable (start : Nat) (nested : Nat → Nat → Parser)

def layer : Nat → Nat → Parser
  | 0 => choice start nested
  | 1 => disjunction start nested
  | 2 => conjunction start nested
  | 3 => equality start nested
  | 4 => comparison start nested
  | 5 => sum start nested
  | 6 => product start nested
  | _ => signed start nested

theorem layer_eq {k : Nat} (h₁ : 1 ≤ k) (h₂ : k ≤ 6) :
    layer start nested k = chained (opAt? k) (layer start nested (k + 1)) := by
  obtain rfl | rfl | rfl | rfl | rfl | rfl :
    k = 1 ∨ k = 2 ∨ k = 3 ∨ k = 4 ∨ k = 5 ∨ k = 6 := by omega
  all_goals rfl

end

section

variable {start room fuel offset opened n d : Nat} {p q r : Prop} {k : String}
  {l l' m : Lexeme} {before rest rest' inner ts : Lexemes} {e e' e'' : Expr}
  {steps : List Accessor} {step : Accessor}

theorem chain_of_ends {k : Nat} (h : ts.Ends k) (operand : Nat → Parser) (room : Nat) (e : Expr) :
    chain (opAt? k) operand room e ts = .ok (e, ts) := by
  cases ts
  case cons l ts =>
    cases ho : opAt? k l.token
    case none    => simp only [chain, ho]
    case some op => exact absurd (h k (rank?_of_opAt? ho)) (Nat.lt_irrefl k)
  all_goals exact h.elim

theorem chain_leads {op? : Token → Option BinaryOp} {operand : Nat → Parser} {op : BinaryOp}
    (hl : op? l.token = some op)
    (h : ∀ room' ≤ room, Leads (d ≤ room') (operand room' rest) (.ok (e', ts))) :
    Leads (n + 1 + d ≤ room) (chain op? operand (room - n) e (.cons l rest))
      (chain op? operand (room - (n + 1)) (binary op e e') ts) := by
  cases hr : room - n
  case zero =>
    simp only [chain, hl]
    exact .tooDeep (by omega) _
  case succ room' =>
    have he : room - (n + 1) = room' := by omega
    simp only [chain, hl, he]
    exact ((h room' (by omega)).bind_eq rfl).congr (by omega)

theorem parseNested_leads (h : ∀ fuel' room', room' ≤ fuel' →
      Leads (d ≤ room') (choice start (parseNested start fuel') room' before) (.ok (e, ts)))
    (hr : room ≤ fuel) :
    Leads (d + 1 ≤ room) (parseNested start fuel room offset before) (.ok (e, ts)) := by
  cases room
  case zero =>
    have hp : parseNested start fuel 0 offset before = .error (.tooDeep offset) := by
      cases fuel <;> rfl
    exact hp ▸ .tooDeep (by omega) _
  case succ room =>
    obtain ⟨fuel, rfl⟩ := Nat.exists_eq_succ_of_ne_zero (Nat.ne_zero_of_lt hr)
    exact (h fuel room (Nat.le_of_succ_le_succ hr)).congr (by omega)

theorem close_leads {token : Token} {inner : Parser}
    (h : Leads p (inner before) (.ok (e, .cons l ts))) (hl : l.token = token) :
    Leads p (close start opened token inner before) (.ok (e, ts)) :=
  h.bind_eq (if_pos hl)

section

variable {nested : Nat → Parser}

theorem accessors_of_ends (h : ts.Ends 7) (n : Nat) :
    accessors start nested n ts = .ok ([], ts) := by
  cases n
  case zero => rfl
  case succ n =>
    cases ts
    case cons l ts =>
      obtain ⟨t, _, _⟩ := l
      have h7 : t.rank? ≠ some 7 := fun ht => Nat.lt_irrefl 7 (h 7 ht)
      cases t <;> first | rfl | exact absurd rfl h7
    all_goals exact h.elim

theorem accessors_leads_field (hl : l.token = .dot) (hm : fieldName? m.token = some k)
    (h : Leads p (accessors start nested n rest) (.ok (steps, ts))) :
    Leads p (accessors start nested (n + 1) (.cons l (.cons m rest)))
      (.ok (.static (.key k) :: steps, ts)) := by
  obtain ⟨_, _, _⟩ := l
  cases hl
  simp only [accessors, hm]
  exact h.bind_eq rfl

theorem accessors_leads_bracket (hl : l.token = .leftBracket) (hm : m.token ≠ .rightBracket)
    (he : ∀ offset, Leads p (nested offset (.cons m inner)) (.ok (e, .cons l' rest)))
    (hl' : l'.token = .rightBracket) (ha : accessor e l.start = .ok step)
    (h : Leads q (accessors start nested n rest) (.ok (steps, ts))) :
    Leads (p ∧ q) (accessors start nested (n + 1) (.cons l (.cons m inner)))
      (.ok (step :: steps, ts)) := by
  obtain ⟨_, opened, _⟩ := l
  obtain ⟨t, _, stop⟩ := m
  cases hl
  have hc : Leads p (close start opened .rightBracket (nested stop) (.cons _ inner))
    (.ok (e, rest)) := close_leads (he stop) hl'
  cases t <;> first | exact absurd rfl hm | exact hc.bind (.bind_ok ha (h.bind_eq rfl))

theorem primary_leads_read {context : String} (hl : l.token = .identifier context)
    (h : Leads p (accessors start nested rest.length rest) (.ok (steps, ts))) :
    Leads p (primary start nested (.cons l rest)) (.ok (read context steps, ts)) := by
  simp only [primary, hl]
  exact h.bind_eq rfl

theorem primary_leads_parens (hl : l.token = .leftParen)
    (h : Leads p (nested l.stop rest) (.ok (e, .cons m ts))) (hm : m.token = .rightParen) :
    Leads p (primary start nested (.cons l rest)) (.ok (e, ts)) := by
  simp only [primary, hl]
  exact close_leads h hm

end

section

variable {nested : Nat → Nat → Parser}

theorem signed_leads {op : UnaryOp} (hl : l.token = op.token)
    (h : ∀ room' ≤ room, Leads (d ≤ room') (signed start nested room' rest) (.ok (e, ts))) :
    Leads (d + 1 ≤ room) (signed start nested room (.cons l rest)) (.ok (signedBy op e, ts)) := by
  obtain ⟨_, _, _⟩ := l
  cases hl
  cases room
  case zero => cases op <;> exact .tooDeep (by omega) _
  case succ room =>
    have hs := h room (Nat.le_succ room)
    cases op <;> exact (hs.bind_eq rfl).congr (by omega)

theorem signed_leads_primary {x : Except ParseError (Expr × Lexemes)} (hb : l.token ≠ .bang)
    (hm : l.token ≠ .minus) (h : Leads p (primary start (nested room) (.cons l rest)) x) :
    Leads p (signed start nested room (.cons l rest)) x := by
  obtain ⟨t, _, _⟩ := l
  cases t <;> cases room <;> first | exact h | exact absurd rfl hb | exact absurd rfl hm

theorem choice_leads (h : Leads p (disjunction start nested room before) (.ok (e, ts)))
    (ht : ts.Ends 0) : Leads p (choice start nested room before) (.ok (e, ts)) := by
  refine h.bind_eq ?_
  cases ts
  case cons l ts =>
    obtain ⟨t, _, _⟩ := l
    have h0 : t.rank? ≠ some 0 := fun h0 => Nat.lt_irrefl 0 (ht 0 h0)
    cases t <;> first | rfl | exact absurd rfl h0
  all_goals exact ht.elim

theorem choice_leads_conditional
    (hc : Leads p (disjunction start nested room before) (.ok (e, .cons l rest)))
    (hl : l.token = .question) (ht : Leads q (nested room l.stop rest) (.ok (e', .cons m rest')))
    (hm : m.token = .colon) (hf : Leads r (nested room m.stop rest') (.ok (e'', ts))) :
    Leads (p ∧ q ∧ r) (choice start nested room before) (.ok (conditional e e' e'', ts)) := by
  obtain ⟨_, _, _⟩ := l
  obtain ⟨_, _, _⟩ := m
  cases hl
  cases hm
  exact hc.bind (ht.bind (hf.bind_eq rfl))

end

end

end Expr

end BindingEngine
