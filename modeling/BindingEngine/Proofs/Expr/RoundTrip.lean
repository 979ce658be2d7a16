import BindingEngine.Proofs.Expr.Layers
import BindingEngine.Proofs.Expr.Lexing

namespace BindingEngine

theorem split_tokens {ls : List Lexeme} {as bs : List Token} {t : Token}
    (h : ls.map (·.token) = as ++ t :: bs) : ∃ ls₁ l ls₂, ls = ls₁ ++ l :: ls₂ ∧
      ls₁.map (·.token) = as ∧ l.token = t ∧ ls₂.map (·.token) = bs := by
  obtain ⟨ls₁, ls', rfl, h₁, h'⟩ := List.map_eq_append_iff.mp h
  obtain ⟨l, ls₂, rfl, hl, h₂⟩ := List.map_eq_cons_iff.mp h'
  exact ⟨ls₁, l, ls₂, rfl, h₁, hl, h₂⟩

namespace Expr

open Lexemes (prepend prepend_cons prepend_append)

section

variable (start : Nat) (quoted : String → Bool)

def ParsesAt (k : Nat) (e : Expr) : Prop :=
  ∀ ⦃fuel room : Nat⦄ ⦃ls : List Lexeme⦄ ⦃ts : Lexemes⦄, room ≤ fuel →
    ls.map (·.token) = grouped k e.rank (e.tokens quoted) → ts.Ends k →
    Leads (groupedDepth k e.rank (e.depth quoted) ≤ room)
      (layer start (parseNested start fuel) k room (prepend ls ts)) (.ok (e, ts))

-- The layer of rank `k` has read an expression, as a chain if it is one, and looks for an operator.
def ChainsAt (k : Nat) (e : Expr) : Prop :=
  ∀ ⦃fuel room : Nat⦄ ⦃ls : List Lexeme⦄ ⦃ts : Lexemes⦄, room ≤ fuel →
    ls.map (·.token) = grouped k e.rank (e.tokens quoted) → ts.Ends (k + 1) →
    Leads (groupedDepth k e.rank (e.depth quoted) ≤ room)
      (layer start (parseNested start fuel) k room (prepend ls ts))
      (chain (opAt? k) (layer start (parseNested start fuel) (k + 1)) (room - e.chainLength k) e ts)

structure Parses (e : Expr) : Prop where
  parsesAt ⦃k : Nat⦄ : k ≤ 7 → ParsesAt start quoted k e
  chainsAt ⦃k : Nat⦄ : 1 ≤ k → k ≤ 6 → ChainsAt start quoted k e

end

variable {start k : Nat} {quoted : String → Bool} {e : Expr}

theorem chainsAt_of_parsesAt (h₁ : 1 ≤ k) (h₂ : k ≤ 6) (hr : e.rank ≠ k)
    (h : ParsesAt start quoted (k + 1) e) : ChainsAt start quoted k e := by
  intro fuel room ls ts hf hts he
  rw [← grouped_succ hr] at hts
  rw [← groupedDepth_succ hr, layer_eq _ _ h₁ h₂, chainLength_eq_zero hr]
  exact (h hf hts he).bind_eq rfl

theorem parsesAt_of_chainsAt (h : ChainsAt start quoted k e) : ParsesAt start quoted k e := by
  intro fuel room ls ts hf hts he
  have hc := h hf hts (he.mono (Nat.le_succ k))
  rwa [chain_of_ends he] at hc

theorem parsesAt_pred (hk : k ≤ 6) (hr : e.rank ≠ k) (h : ParsesAt start quoted (k + 1) e) :
    ParsesAt start quoted k e := by
  cases k
  case zero =>
    intro fuel room ls ts hf hts he
    rw [← grouped_succ hr] at hts
    rw [← groupedDepth_succ hr]
    exact choice_leads (h hf hts (he.mono (Nat.le_succ 0))) he
  case succ k => exact parsesAt_of_chainsAt (chainsAt_of_parsesAt (Nat.succ_pos k) hk hr h)

theorem parsesAt_of_le {j : Nat} (hj : j ≤ k) (hk : k ≤ 7) (hr : ∀ i, j ≤ i → i < k → e.rank ≠ i)
    (h : ParsesAt start quoted k e) : ParsesAt start quoted j e := by
  induction hj
  case refl => exact h
  case step k hj ih =>
    have hp := parsesAt_pred (by omega) (hr k hj (Nat.lt_succ_self k)) h
    exact ih (by omega) (fun i hi hk => hr i hi (Nat.lt_succ_of_lt hk)) hp

theorem nested_leads (h : ParsesAt start quoted 0 e) {fuel room : Nat} {ls : List Lexeme}
    {ts : Lexemes} (hf : room ≤ fuel) (hts : ls.map (·.token) = e.tokens quoted) (he : ts.Ends 0)
    (offset : Nat) :
    Leads (e.depth quoted + 1 ≤ room) (parseNested start fuel room offset (prepend ls ts))
      (.ok (e, ts)) := by
  refine parseNested_leads (fun fuel' room' hf => ?_) hf
  have hp := h hf (hts.trans (grouped_of_le (Nat.zero_le _) _).symm) he
  rwa [groupedDepth_of_le (Nat.zero_le _)] at hp

theorem parsesAt_of_parens (hr : e.rank < 7) (h : ParsesAt start quoted 0 e) :
    ParsesAt start quoted 7 e := by
  intro fuel room ls ts hf hts _
  simp only [grouped, if_pos hr] at hts
  simp only [groupedDepth, if_pos hr]
  obtain ⟨l, ls, rfl, hl, hts⟩ := List.map_eq_cons_iff.mp hts
  obtain ⟨ls, m, ms, rfl, hls, hm, hms⟩ := split_tokens hts
  obtain rfl := List.map_eq_nil_iff.mp hms
  have he : (Lexemes.cons m ts).Ends 0 := by simp [Lexemes.Ends, hm, Token.rank?]
  rw [prepend_cons, prepend_append]
  exact signed_leads_primary (by simp [hl]) (by simp [hl])
    (primary_leads_parens hl (nested_leads h hf hls he l.stop) hm)

-- The looser layers pass an expression on to the layer of its rank. From the loosest one it comes
-- to the tightest in parentheses, and from there to those between.
theorem Parses.of_parsesAt (h : ParsesAt start quoted e.rank e)
    (hc : 1 ≤ e.rank → e.rank ≤ 6 → ChainsAt start quoted e.rank e) : Parses start quoted e := by
  have hl : ∀ k ≤ e.rank, ParsesAt start quoted k e := fun k hk =>
    parsesAt_of_le hk e.rank_le (fun i _ hi => Nat.ne_of_gt hi) h
  have hp : ∀ k ≤ 7, ParsesAt start quoted k e := by
    intro k hk
    by_cases hr : k ≤ e.rank
    case pos => exact hl k hr
    case neg =>
      have h7 := parsesAt_of_parens (by omega) (hl 0 (Nat.zero_le _))
      exact parsesAt_of_le hk (Nat.le_refl 7) (fun i hi _ => by omega) h7
  refine ⟨hp, fun k h₁ h₂ => ?_⟩
  by_cases hr : e.rank = k
  case pos => exact hr ▸ hc (hr ▸ h₁) (hr ▸ h₂)
  case neg => exact chainsAt_of_parsesAt h₁ h₂ hr (hp (k + 1) (by omega))

theorem Parses.loosest (h : Parses start quoted e) : ParsesAt start quoted 0 e :=
  h.parsesAt (Nat.zero_le 7)

theorem parsesAt_of_own (h : ∀ ⦃fuel room : Nat⦄ ⦃ls : List Lexeme⦄ ⦃ts : Lexemes⦄, room ≤ fuel →
      ls.map (·.token) = e.tokens quoted → ts.Ends e.rank → Leads (e.depth quoted ≤ room)
        (layer start (parseNested start fuel) e.rank room (prepend ls ts)) (.ok (e, ts))) :
    ParsesAt start quoted e.rank e := by
  intro fuel room ls ts hf hts he
  rw [grouped_of_le (Nat.le_refl _)] at hts
  rw [groupedDepth_of_le (Nat.le_refl _)]
  exact h hf hts he

theorem Parses.of_signed (hr : e.rank = 7)
    (h : ∀ ⦃fuel room : Nat⦄ ⦃ls : List Lexeme⦄ ⦃ts : Lexemes⦄, room ≤ fuel →
      ls.map (·.token) = e.tokens quoted → ts.Ends 7 → Leads (e.depth quoted ≤ room)
        (signed start (parseNested start fuel) room (prepend ls ts)) (.ok (e, ts))) :
    Parses start quoted e := by
  refine .of_parsesAt (parsesAt_of_own ?_) (fun _ h₂ => by omega)
  rw [hr]
  exact h

section Literal

variable {nested : Nat → Nat → Parser} {room : Nat} {l : Lexeme} {rest : Lexemes} {v : Value}

theorem signed_leads_literal (h : WritableValue v) (hl : literalTokens v = [l.token]) :
    Leads (0 ≤ room) (signed start nested room (.cons l rest)) (.ok (literal v, rest)) := by
  obtain ⟨t, _, _⟩ := l
  cases v
  case bool b =>
    cases b <;> cases hl <;>
      exact signed_leads_primary (by simp) (by simp) (.of_eq (Nat.zero_le _) rfl)
  case int i =>
    simp only [literalTokens] at hl
    split at hl <;> cases hl
    exact signed_leads_primary (by simp) (by simp) (.of_eq (Nat.zero_le _) rfl)
  case double | array | map => exact h.elim
  all_goals
    cases hl
    exact signed_leads_primary (by simp) (by simp) (.of_eq (Nat.zero_le _) rfl)

theorem signed_leads_negative {i : Int64} (h : i ≠ Int64.minValue) (hi : i < 0) {m : Lexeme}
    (hl : l.token = .minus) (hm : m.token = .int (-i)) :
    Leads (1 ≤ room) (signed start nested room (.cons l (.cons m rest)))
      (.ok (literal (.int i), rest)) := by
  have hn : ¬-i < 0 := Int64.not_lt.mpr (nonneg_neg hi h)
  have hw : -i ≠ Int64.minValue := fun he => hn (he ▸ by decide)
  have ht : literalTokens (.int (-i)) = [m.token] := hm ▸ if_neg hn
  have hs : signedBy .neg (literal (.int (-i))) = literal (.int i) := by
    simp [signedBy, negated, hw]
  rw [← hs]
  exact signed_leads hl fun room' _ => signed_leads_literal hw ht

theorem literalTokens_cases (h : WritableValue v) :
    (∃ t, literalTokens v = [t] ∧ t ≠ .rightBracket ∧ literalDepth v = 0) ∨
      ∃ i, v = .int i ∧ i < 0 := by
  cases v
  case bool b => cases b <;> exact .inl ⟨_, rfl, by simp, rfl⟩
  case int i =>
    by_cases hi : i < 0
    case pos => exact .inr ⟨i, rfl, hi⟩
    case neg => exact .inl ⟨_, if_neg hi, by simp, if_neg hi⟩
  case double | array | map => exact h.elim
  all_goals exact .inl ⟨_, rfl, by simp, rfl⟩

theorem parses_literal (h : WritableValue v) : Parses start quoted (literal v) := by
  refine .of_signed rfl fun fuel room ls ts hf hts he => ?_
  simp only [tokens] at hts
  simp only [depth]
  rcases literalTokens_cases h with ⟨t, ht, _, hd⟩ | ⟨i, rfl, hi⟩
  case inl =>
    rw [ht] at hts
    obtain ⟨l, ls, rfl, rfl, hls⟩ := List.map_eq_cons_iff.mp hts
    obtain rfl := List.map_eq_nil_iff.mp hls
    rw [hd]
    exact signed_leads_literal h ht
  case inr =>
    simp only [literalTokens, if_pos hi] at hts
    obtain ⟨l, ls, rfl, hl, hls⟩ := List.map_eq_cons_iff.mp hts
    obtain ⟨m, ls, rfl, hm, hls⟩ := List.map_eq_cons_iff.mp hls
    obtain rfl := List.map_eq_nil_iff.mp hls
    rw [literalDepth, if_pos hi]
    exact signed_leads_negative h hi hl hm

end Literal

theorem signedBy_eq {op : UnaryOp} (h : op = .neg → ¬e.isNumber) : signedBy op e = unary op e := by
  cases op
  case not => rfl
  case neg =>
    have hn := h rfl
    cases e
    case literal v => cases v <;> first | rfl | exact absurd rfl hn
    all_goals rfl

theorem parses_unary {op : UnaryOp} (h : Parses start quoted e) (hn : op = .neg → ¬e.isNumber) :
    Parses start quoted (unary op e) := by
  refine .of_signed rfl fun fuel room ls ts hf hts he => ?_
  simp only [tokens] at hts
  obtain ⟨l, ls, rfl, hl, hls⟩ := List.map_eq_cons_iff.mp hts
  have hs := signed_leads hl fun room' hr => h.parsesAt (Nat.le_refl 7) (Nat.le_trans hr hf) hls he
  rw [signedBy_eq hn] at hs
  exact hs

theorem parses_binary {op : BinaryOp} {left right : Expr} (hl : Parses start quoted left)
    (hr : Parses start quoted right) : Parses start quoted (binary op left right) := by
  have hc : ChainsAt start quoted op.rank (binary op left right) := by
    intro fuel room ls ts hf hts he
    rw [rank, grouped_of_le (Nat.le_refl _), tokens] at hts
    rw [rank, groupedDepth_of_le (Nat.le_refl _), depth, chainLength, if_pos rfl]
    obtain ⟨ls, l, ms, rfl, hls, ht, hms⟩ := split_tokens hts
    rw [prepend_append, prepend_cons]
    have hn : (Lexemes.cons l (prepend ms ts)).Ends (op.rank + 1) := by
      simp [Lexemes.Ends, ht, rank?_of_opAt? (opAt?_token op)]
    have ho : opAt? op.rank l.token = some op := ht ▸ opAt?_token op
    have hleft := hl.chainsAt op.rank_pos op.rank_le hf hls hn
    have hright := fun room' (hr' : room' ≤ room) =>
      hr.parsesAt (Nat.succ_le_succ op.rank_le) (Nat.le_trans hr' hf) hms he
    exact (hleft.trans (chain_leads ho hright)).congr Nat.max_le.symm
  exact .of_parsesAt (parsesAt_of_chainsAt hc) (fun _ _ => hc)

theorem parses_conditional {condition whenTrue whenFalse : Expr}
    (hc : Parses start quoted condition) (ht : Parses start quoted whenTrue)
    (hf : Parses start quoted whenFalse) :
    Parses start quoted (conditional condition whenTrue whenFalse) := by
  refine .of_parsesAt (parsesAt_of_own fun fuel room ls ts hr hts he => ?_)
    fun h => absurd h (Nat.not_succ_le_zero 0)
  rw [tokens] at hts
  rw [depth]
  obtain ⟨ls, l, rest, rfl, hls, hl, hts⟩ := split_tokens hts
  obtain ⟨ms, m, ns, rfl, hms, hm, hns⟩ := split_tokens hts
  rw [prepend_append, prepend_cons, prepend_append, prepend_cons]
  have hq : (Lexemes.cons l (prepend ms (.cons m (prepend ns ts)))).Ends 1 := by
    simp [Lexemes.Ends, hl, Token.rank?]
  have hm' : (Lexemes.cons m (prepend ns ts)).Ends 0 := by simp [Lexemes.Ends, hm, Token.rank?]
  have hcondition := hc.parsesAt (show 1 ≤ 7 by decide) hr hls hq
  have htrue := nested_leads ht.loosest hr hms hm' l.stop
  have hfalse := nested_leads hf.loosest hr hns he m.stop
  exact (choice_leads_conditional hcondition hl htrue hm hfalse).congr (by omega)

def Begins (ts : List Token) : Prop :=
  ∃ t rest, ts = t :: rest ∧ t ≠ .rightBracket

theorem Begins.append {as : List Token} (h : Begins as) (bs : List Token) : Begins (as ++ bs) := by
  obtain ⟨t, rest, rfl, ht⟩ := h
  exact ⟨t, rest ++ bs, rfl, ht⟩

theorem Begins.grouped {ts : List Token} (h : Begins ts) (k rank : Nat) :
    Begins (grouped k rank ts) := by
  unfold Expr.grouped
  split
  case isTrue  => exact ⟨_, _, rfl, by simp⟩
  case isFalse => exact h

theorem begins_tokens (quoted : String → Bool) (e : Expr) (h : e.Writable) :
    Begins (e.tokens quoted) := by
  cases e
  case literal v =>
    rcases literalTokens_cases h with ⟨t, ht, hb, _⟩ | ⟨i, rfl, hi⟩
    case inl => exact ⟨t, [], ht, hb⟩
    case inr => exact ⟨.minus, _, if_pos hi, by simp⟩
  case read context steps => exact ⟨_, _, rfl, by simp⟩
  case unary op operand => exact ⟨_, _, rfl, by cases op <;> simp [UnaryOp.token]⟩
  case binary op left right => exact ((begins_tokens quoted left h.1).grouped _ _).append _
  case conditional condition whenTrue whenFalse =>
    exact ((begins_tokens quoted condition h.1).grouped _ _).append _

section Steps

variable (start : Nat) (quoted : String → Bool)

def StepsParse (steps : List Accessor) : Prop :=
  ∀ ⦃fuel room n : Nat⦄ ⦃ls : List Lexeme⦄ ⦃ts : Lexemes⦄, room ≤ fuel → ls.length ≤ n →
    ls.map (·.token) = stepTokens quoted steps → ts.Ends 7 →
    Leads (stepDepth quoted steps ≤ room)
      (accessors start (parseNested start fuel room) n (prepend ls ts)) (.ok (steps, ts))

end Steps

variable {steps : List Accessor}

theorem stepsParse_nil : StepsParse start quoted [] := by
  intro fuel room n ls ts hf hn hts he
  obtain rfl := List.map_eq_nil_iff.mp hts
  exact .of_eq (Nat.zero_le _) (accessors_of_ends he n)

theorem accessors_leads_group {step : Accessor} (hs : StepsParse start quoted steps)
    (he : Parses start quoted e) (hb : Begins (e.tokens quoted))
    (ha : ∀ offset, accessor e offset = .ok step) {fuel room n : Nat} {ls : List Lexeme}
    {ts : Lexemes} (hf : room ≤ fuel) (hn : ls.length ≤ n)
    (hts : ls.map (·.token) =
      .leftBracket :: (e.tokens quoted ++ .rightBracket :: stepTokens quoted steps))
    (hends : ts.Ends 7) :
    Leads (max (e.depth quoted + 1) (stepDepth quoted steps) ≤ room)
      (accessors start (parseNested start fuel room) n (prepend ls ts))
      (.ok (step :: steps, ts)) := by
  obtain ⟨t, bs, hb, ht⟩ := hb
  obtain ⟨l, ls, rfl, hl, hts⟩ := List.map_eq_cons_iff.mp hts
  obtain ⟨ms, r, ns, rfl, hms, hr, hns⟩ := split_tokens hts
  obtain ⟨m, ms, rfl, hm, _⟩ := List.map_eq_cons_iff.mp (hms.trans hb)
  simp only [List.length_cons, List.length_append] at hn
  obtain ⟨n, rfl⟩ := Nat.exists_eq_succ_of_ne_zero (Nat.ne_zero_of_lt hn)
  have hc : (Lexemes.cons r (prepend ns ts)).Ends 0 := by simp [Lexemes.Ends, hr, Token.rank?]
  have hinner := nested_leads he.loosest hf hms hc
  have hrest := hs hf (n := n) (by omega) hns hends
  rw [prepend_cons, prepend_append]
  exact (accessors_leads_bracket hl (hm ▸ ht) hinner hr (ha l.start) hrest).congr Nat.max_le.symm

theorem fieldName?_word (name : String) : fieldName? (.word name) = some name := by
  grind [Token.word, fieldName?]

theorem stepsParse_key (k : String) (hs : StepsParse start quoted steps) :
    StepsParse start quoted (.static (.key k) :: steps) := by
  intro fuel room n ls ts hf hn hts he
  rw [stepTokens, keyTokens] at hts
  rw [stepDepth]
  split at hts
  case isTrue hk =>
    rw [if_pos hk]
    obtain ⟨l, ls, rfl, hl, hts⟩ := List.map_eq_cons_iff.mp hts
    obtain ⟨m, ls, rfl, hm, hls⟩ := List.map_eq_cons_iff.mp hts
    simp only [List.length_cons] at hn
    obtain ⟨n, rfl⟩ := Nat.exists_eq_succ_of_ne_zero (Nat.ne_zero_of_lt hn)
    have hrest := hs hf (n := n) (by omega) hls he
    exact (accessors_leads_field hl (hm ▸ fieldName?_word k) hrest).congr (by omega)
  case isFalse hk =>
    have hp : Parses start quoted (literal (.string k)) := parses_literal trivial
    rw [if_neg hk]
    exact accessors_leads_group hs hp ⟨_, _, rfl, by simp⟩ (fun _ => rfl) hf hn hts he

theorem stepsParse_index {i : UInt64} (hi : i.toNat ≤ 9223372036854775807)
    (hs : StepsParse start quoted steps) :
    StepsParse start quoted (.static (.index i) :: steps) := by
  intro fuel room n ls ts hf hn hts he
  have hn0 : ¬i.toInt64 < 0 := Int64.not_lt.mpr (nonneg_toInt64 hi)
  have ht : tokens quoted (literal (.int i.toInt64)) = [.int i.toInt64] := if_neg hn0
  have hd : depth quoted (literal (.int i.toInt64)) = 0 := if_neg hn0
  have ha : ∀ offset, accessor (literal (.int i.toInt64)) offset = .ok (.static (.index i)) := by
    simpa [accessor, Int64.lt_iff_toInt_lt] using hn0
  have hm : i.toInt64 ≠ Int64.minValue := fun hm => hn0 (hm ▸ by decide)
  have hp : Parses start quoted (literal (.int i.toInt64)) := parses_literal hm
  have hg := accessors_leads_group hs hp ⟨_, _, ht, by simp⟩ ha hf hn (ht ▸ hts) he
  rwa [hd] at hg

theorem stepsParse_computed (hp : Parses start quoted e) (hb : Begins (e.tokens quoted))
    (hl : ¬e.isLiteral) (hs : StepsParse start quoted steps) :
    StepsParse start quoted (.computed e :: steps) := by
  intro fuel room n ls ts hf hn hts he
  have ha : ∀ offset, accessor e offset = .ok (.computed e) := by
    cases e
    case literal => exact absurd rfl hl
    all_goals exact fun _ => rfl
  exact accessors_leads_group hs hp hb ha hf hn hts he

theorem parses_read {context : String} (hs : StepsParse start quoted steps) :
    Parses start quoted (read context steps) := by
  refine .of_signed rfl fun fuel room ls ts hf hts he => ?_
  rw [tokens] at hts
  rw [depth]
  obtain ⟨l, ls, rfl, hl, hls⟩ := List.map_eq_cons_iff.mp hts
  have hn : ls.length ≤ (prepend ls ts).length := by simp [Lexemes.length_prepend]
  exact signed_leads_primary (by simp [hl]) (by simp [hl]) (primary_leads_read hl (hs hf hn hls he))

mutual

theorem parses (start : Nat) (quoted : String → Bool) (e : Expr) (h : e.Writable) :
    Parses start quoted e := by
  match e with
  | .literal v => exact parses_literal h
  | .read context steps => exact parses_read (stepsParse start quoted steps h.2.2)
  | .unary op operand => exact parses_unary (parses start quoted operand h.1) h.2
  | .binary op left right =>
    exact parses_binary (parses start quoted left h.1) (parses start quoted right h.2)
  | .conditional condition whenTrue whenFalse =>
    obtain ⟨hc, ht, hf⟩ := h
    exact parses_conditional (parses start quoted condition hc) (parses start quoted whenTrue ht)
      (parses start quoted whenFalse hf)

theorem stepsParse (start : Nat) (quoted : String → Bool) (steps : List Accessor)
    (h : WritableSteps steps) : StepsParse start quoted steps := by
  match steps with
  | [] => exact stepsParse_nil
  | .static (.key k) :: rest => exact stepsParse_key k (stepsParse start quoted rest h)
  | .static (.index i) :: rest => exact stepsParse_index h.1 (stepsParse start quoted rest h.2)
  | .computed e :: rest =>
    obtain ⟨he, hl, hr⟩ := h
    exact stepsParse_computed (parses start quoted e he) (begins_tokens quoted e he) hl
      (stepsParse start quoted rest hr)

end

theorem parseTokens_leads (h : e.Writable) {ls : List Lexeme} {l : Lexeme}
    (hts : ls.map (·.token) = e.tokens quoted) (hl : l.token = .closeBrace) :
    Leads (e.depth quoted < maxDepth) (parseTokens start (prepend ls (.cons l (.done l.stop))))
      (.ok (e, l.stop)) := by
  obtain ⟨t, bs, hb, _⟩ := begins_tokens quoted e h
  have ht : t.Legible := legible_tokens quoted e h t (hb ▸ List.mem_cons_self)
  have he : (Lexemes.cons l (.done l.stop)).Ends 0 := by simp [Lexemes.Ends, hl, Token.rank?]
  have hp := nested_leads (parses start quoted e h).loosest (Nat.le_refl maxDepth) hts he start
  obtain ⟨m, ls, rfl, hm, _⟩ := List.map_eq_cons_iff.mp (hts.trans hb)
  obtain ⟨_, _, _⟩ := l
  obtain ⟨t, _, _⟩ := m
  cases hl
  cases hm
  cases t <;> first | exact ht.elim | exact hp.bind_eq rfl

theorem nests_binary (op : BinaryOp) : op.token.nests = true := by
  cases op <;> rfl

theorem grouped_le_countP {ts : List Token} {n : Nat} (k rank : Nat)
    (h : n ≤ ts.countP Token.nests) :
    groupedDepth k rank n ≤ (grouped k rank ts).countP Token.nests := by
  unfold groupedDepth grouped
  split
  case isTrue =>
    rw [List.countP_cons_of_pos rfl, List.countP_append]
    omega
  case isFalse => exact h

theorem chainLength_le_countP (quoted : String → Bool) (k : Nat) (e : Expr) :
    e.chainLength k ≤ (e.tokens quoted).countP Token.nests := by
  match e with
  | .binary op left right =>
    have hl := grouped_le_countP op.rank left.rank (chainLength_le_countP quoted k left)
    have hn := le_groupedDepth op.rank left.rank (left.chainLength k)
    rw [tokens, List.countP_append, List.countP_cons_of_pos (nests_binary op), chainLength]
    split <;> omega
  | .literal _ | .read _ _ | .unary _ _ | .conditional _ _ _ => exact Nat.zero_le _

mutual

theorem depth_le_countP (quoted : String → Bool) (e : Expr) :
    e.depth quoted ≤ (e.tokens quoted).countP Token.nests := by
  match e with
  | .literal v =>
    rw [tokens, depth]
    cases v
    case int i =>
      rw [literalTokens, literalDepth]
      split
      case isTrue  => exact Nat.le_refl 1
      case isFalse => exact Nat.zero_le _
    all_goals exact Nat.zero_le _
  | .read context steps =>
    rw [tokens, depth, List.countP_cons]
    exact Nat.le_add_right_of_le (stepDepth_le_countP quoted steps)
  | .unary op operand =>
    have ho := grouped_le_countP 7 operand.rank (depth_le_countP quoted operand)
    have hn : op.token.nests = true := by cases op <;> rfl
    rw [tokens, depth, List.countP_cons_of_pos hn]
    exact Nat.succ_le_succ ho
  | .binary op left right =>
    have hl := grouped_le_countP op.rank left.rank (depth_le_countP quoted left)
    have hr := grouped_le_countP (op.rank + 1) right.rank (depth_le_countP quoted right)
    have hc := grouped_le_countP op.rank left.rank (chainLength_le_countP quoted op.rank left)
    have hn := le_groupedDepth op.rank left.rank (left.chainLength op.rank)
    rw [tokens, depth, List.countP_append, List.countP_cons_of_pos (nests_binary op)]
    omega
  | .conditional condition whenTrue whenFalse =>
    have hc := grouped_le_countP 1 condition.rank (depth_le_countP quoted condition)
    have ht := depth_le_countP quoted whenTrue
    have hf := depth_le_countP quoted whenFalse
    rw [tokens, depth, List.countP_append, List.countP_cons_of_pos rfl, List.countP_append,
      List.countP_cons]
    omega

theorem stepDepth_le_countP (quoted : String → Bool) (steps : List Accessor) :
    stepDepth quoted steps ≤ (stepTokens quoted steps).countP Token.nests := by
  match steps with
  | [] => exact Nat.zero_le _
  | .static (.key k) :: rest =>
    have hr := stepDepth_le_countP quoted rest
    rw [stepTokens, stepDepth, keyTokens, List.countP_append]
    split
    case isTrue  => omega
    case isFalse =>
      rw [List.countP_cons_of_pos rfl]
      omega
  | .static (.index i) :: rest =>
    have hr := stepDepth_le_countP quoted rest
    rw [stepTokens, stepDepth, List.countP_cons_of_pos rfl, List.countP_cons, List.countP_cons]
    omega
  | .computed e :: rest =>
    have he := depth_le_countP quoted e
    have hr := stepDepth_le_countP quoted rest
    rw [stepTokens, stepDepth, List.countP_cons_of_pos rfl, List.countP_append, List.countP_cons]
    omega

end

theorem parseBinding_leads {cs : List Char} (h : e.Writable) (hc : Written (e.tokens quoted) cs)
    (start : Nat) (after : List Char) :
    Leads (e.depth quoted < maxDepth) (parseBinding start (cs ++ after))
      (.ok (e, start + 2 + byteLength cs, after)) := by
  have hf : cs.length < (cs ++ after).length + 1 := by
    rw [List.length_append]
    omega
  obtain ⟨ls, l, hls, hl, hs, hscan⟩ :=
    Lexemes.scan_written hc (legible_tokens quoted e h) hf (start + 2) after
  simp only [parseBinding, hscan, ← hs]
  exact (parseTokens_leads h hls hl).bind_eq rfl

-- What is written is read as the same expression, wherever the binding begins and whatever follows
-- it. It is refused exactly if it opens too many levels, and opens none without a token for it.
theorem parseBinding_written {cs : List Char} (h : e.Writable) (hc : Written (e.tokens quoted) cs)
    (start : Nat) (after : List Char) :
    (e.depth quoted < maxDepth →
      parseBinding start (cs ++ after) = .ok (e, start + 2 + byteLength cs, after)) ∧
    (maxDepth ≤ e.depth quoted →
      ∃ offset, parseBinding start (cs ++ after) = .error (.tooDeep offset)) ∧
    e.depth quoted ≤ (e.tokens quoted).countP Token.nests := by
  obtain ⟨hr, hd⟩ := parseBinding_leads h hc start after
  exact ⟨hr, fun hm => hd (Nat.not_lt.mpr hm), depth_le_countP quoted e⟩

def choosing : Expr :=
  conditional (binary .and (binary .or (read "a" []) (read "b" [])) (unary .not (read "c" [])))
    (read "items"
      [.computed (binary .add (read "index" []) (literal (.int 1))), .static (.key "name")])
    (literal (.string "it's"))

theorem choosing_parses :
    parseBinding 7 " ( a || b ) && ! c ? items [ index + 1 ] . name : 'it\\'s' \x7d!".toList =
      .ok (choosing, 68, ['!']) := by
  have hw : choosing.Writable := by
    simp [choosing, Writable, WritableSteps, WritableValue, isLiteral]
    decide
  have ht : " ( a || b ) && ! c ? items [ index + 1 ] . name : 'it\\'s' \x7d!".toList =
      spaced (choosing.tokens fun _ => false) ++ ['!'] := by decide
  have hc : Written (choosing.tokens fun _ => false) (spaced _) := written_spaced _
  rw [ht]
  exact (parseBinding_written hw hc 7 ['!']).1 (by decide)

end Expr

end BindingEngine
