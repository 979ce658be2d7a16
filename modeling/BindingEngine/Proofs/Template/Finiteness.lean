import BindingEngine.Proofs.Binary64.Range
import BindingEngine.Proofs.Expr.Finiteness
import BindingEngine.Proofs.Template.Composition

namespace BindingEngine

-- A decimal that is beyond the range of the finite numbers, as it is written.
structure Overlong (whole fraction : List Char) : Prop where
  ne_nil : whole ≠ [] ∧ fraction ≠ []
  digits : ∀ c ∈ whole ++ fraction, c.isDigit
  range_le : Nat.pow 10 fraction.length * Binary64.range ≤ 2 * Path.decimalValue (whole ++ fraction)

def HasOverlong (cs : List Char) : Prop :=
  ∃ whole fraction, whole ++ '.' :: fraction <:+: cs ∧ Overlong whole fraction

-- A literal is infinite only if there is such a decimal in the text.
def LiteralIn (cs : List Char) (v : Value) : Prop :=
  v.Finite ∨ (∃ negative, v = .double (.infinity negative)) ∧ HasOverlong cs

variable {cs cs' : List Char} {v : Value} {x : Binary64}

theorem HasOverlong.of_suffix (h : HasOverlong cs') (hs : cs' <:+ cs) : HasOverlong cs := by
  obtain ⟨whole, fraction, hi, ho⟩ := h
  exact ⟨whole, fraction, hi.trans hs.isInfix, ho⟩

namespace LiteralIn

theorem of_suffix (h : LiteralIn cs' v) (hs : cs' <:+ cs) : LiteralIn cs v :=
  h.imp_right (And.imp_right fun ho => ho.of_suffix hs)

theorem neg (h : LiteralIn cs (.double x)) : LiteralIn cs (.double x.neg) := by
  obtain h | ⟨⟨negative, hx⟩, ho⟩ := h
  case inl => exact .inl (.double ((Binary64.isFinite_neg x).trans (Value.finite_double_iff.mp h)))
  case inr =>
    obtain rfl := Value.double.inj hx
    exact .inr ⟨⟨!negative, congrArg Value.double (Binary64.neg_infinity negative)⟩, ho⟩

end LiteralIn

namespace Token

variable {found : Token × Nat}

theorem literal?_of_symbol? (h : symbol? cs = some found) : found.1.literal? = none := by
  unfold symbol? at h
  split at h
  case h_24 => contradiction
  all_goals
    obtain rfl := Option.some.inj h
    rfl

theorem finite_of_word {name : String} (h : (word name).literal? = some v) : v.Finite := by
  unfold word at h
  split_ifs at h <;> cases h
  case pos => exact .bool true
  case pos => exact .bool false
  case pos => exact .null

theorem ne_nil_of_numberText {whole fraction : List Char}
    (h : numberText cs = (whole, some fraction)) : fraction ≠ [] := by
  simp only [numberText] at h
  split at h
  case h_2 => cases h
  case h_1 =>
    split at h
    case isTrue => cases h
    case isFalse hn =>
      obtain rfl := Option.some.inj (Prod.mk.inj h).2
      exact fun he => hn (List.isEmpty_iff.mpr he)

theorem overlong_of_numberText {c : Char} {whole fraction : List Char} (hc : c.isDigit)
    (hn : numberText (c :: cs) = (whole, some fraction))
    (hf : ¬(Binary64.ofDecimal false (Path.decimalValue (whole ++ fraction))
      (-fraction.length)).isFinite) : whole ++ '.' :: fraction <+: c :: cs ∧ Overlong whole fraction := by
  obtain ⟨rfl, hd⟩ := numberText_spelled hn
  obtain ⟨hd, rest, hr⟩ := hd fraction rfl
  refine ⟨⟨rest, ?_⟩, ⟨?_, ne_nil_of_numberText hn⟩, ?_, ?_⟩
  case refine_1 => rw [List.append_assoc, List.cons_append, ← hr]
  case refine_2 => simp [hc]
  case refine_3 => exact List.forall_mem_append.mpr ⟨List.all_eq_true.mp List.all_takeWhile, hd⟩
  case refine_4 => exact Nat.not_lt.mp (mt (Binary64.isFinite_ofDecimal_iff _ _ _).mpr hf)

theorem Reads.literalIn (h : Reads cs found) (hv : found.1.literal? = some v) : LiteralIn cs v := by
  cases h
  case symbol hs =>
    rw [literal?_of_symbol? hs] at hv
    contradiction
  case string =>
    cases hv
    exact .inl (.string _)
  case int =>
    cases hv
    exact .inl (.int _)
  case word => exact .inl (finite_of_word hv)
  case double c cs whole fraction hc hn =>
    cases hv
    rcases Binary64.isFinite_or_eq_infinity false (Path.decimalValue (whole ++ fraction))
      (-fraction.length) with hf | hf
    case inl => exact .inl (.double hf)
    case inr =>
      obtain ⟨hp, ho⟩ := overlong_of_numberText hc hn (hf ▸ Binary64.not_isFinite_infinity false)
      exact .inr ⟨⟨false, congrArg Value.double hf⟩, _, _, hp.isInfix, ho⟩

end Token

namespace Lexemes

def All (p : Token → Prop) : Lexemes → Prop
  | cons l ts => p l.token ∧ ts.All p
  | _ => True

theorem all_scan {p : Token → Prop} {cs : List Char} (fuel depth offset : Nat)
    (hp : ∀ cs' t n, cs' <:+ cs → Token.Reads cs' (t, n) → p t) : (scan fuel depth offset cs).1.All p := by
  induction fuel generalizing depth offset cs
  case zero => trivial
  case succ fuel hi =>
    have hs := List.dropWhile_suffix (l := cs) Text.isBlank
    simp only [scan]
    split
    case isTrue => trivial
    case isFalse =>
      split
      case h_1 => trivial
      case h_2 t n hr =>
        have ht : p t := hp _ t n hs (Token.reads_of_read hr)
        split
        case isTrue => exact ⟨ht, trivial⟩
        case isFalse =>
          refine ⟨ht, hi _ _ fun cs' t n hs' => hp cs' t n (hs'.trans ?_)⟩
          exact (List.drop_suffix _ _).trans hs

end Lexemes

namespace Expr

variable {p : Value → Prop} {e : Expr}

theorem literals_signedBy (hint : ∀ i, p (.int i)) (hneg : ∀ x, p (.double x) → p (.double x.neg))
    (op : UnaryOp) (e : Expr) (h : e.Literals p) : (signedBy op e).Literals p := by
  cases op
  case not => exact h
  case neg =>
    rw [signedBy, negated.eq_def]
    split
    case h_1 i =>
      split
      case isTrue => exact h
      case isFalse => exact hint _
    case h_2 => exact hneg _ h
    case h_3 => exact h

theorem stepLiterals_cons {step : Accessor} {opened : Nat} {steps : List Accessor}
    (ha : accessor e opened = .ok step) (he : e.Literals p) (hs : StepLiterals p steps) :
    StepLiterals p (step :: steps) := by
  unfold accessor at ha
  split at ha
  case h_1 =>
    split at ha <;> cases ha
    exact hs
  case h_2 =>
    cases ha
    exact hs
  case h_3 => cases ha
  case h_4 =>
    cases ha
    exact ⟨he, hs⟩

mutual

theorem literals_of_derives (hsign : ∀ op e, e.Literals p → (signedBy op e).Literals p)
    {ts ts' : Lexemes} {e : Expr} (h : Derives ts e ts')
    (hp : ts.All fun t => ∀ v, t.literal? = some v → p v) :
    e.Literals p ∧ ts'.All fun t => ∀ v, t.literal? = some v → p v := by
  match h with
  | .literal hl => exact ⟨hp.1 _ hl, hp.2⟩
  | .read _ hs => exact literals_of_derivesSteps hsign hs hp.2
  | .group _ he =>
    obtain ⟨he, hp⟩ := literals_of_derives hsign he hp.2
    exact ⟨he, hp.2⟩
  | .signed _ he =>
    obtain ⟨he, hp⟩ := literals_of_derives hsign he hp.2
    exact ⟨hsign _ _ he, hp⟩
  | .binary hl _ hr =>
    obtain ⟨hl, hp⟩ := literals_of_derives hsign hl hp
    obtain ⟨hr, hp⟩ := literals_of_derives hsign hr hp.2
    exact ⟨⟨hl, hr⟩, hp⟩
  | .conditional hc _ ht _ hf =>
    obtain ⟨hc, hp⟩ := literals_of_derives hsign hc hp
    obtain ⟨ht, hp⟩ := literals_of_derives hsign ht hp.2
    obtain ⟨hf, hp⟩ := literals_of_derives hsign hf hp.2
    exact ⟨⟨hc, ht, hf⟩, hp⟩

theorem literals_of_derivesSteps (hsign : ∀ op e, e.Literals p → (signedBy op e).Literals p)
    {ts ts' : Lexemes} {steps : List Accessor} (h : DerivesSteps ts steps ts')
    (hp : ts.All fun t => ∀ v, t.literal? = some v → p v) :
    StepLiterals p steps ∧ ts'.All fun t => ∀ v, t.literal? = some v → p v := by
  match h with
  | .nil _ => exact ⟨trivial, hp⟩
  | .field _ _ hs =>
    obtain ⟨hs, hp⟩ := literals_of_derivesSteps hsign hs hp.2.2
    exact ⟨hs, hp⟩
  | .bracket _ he _ ha hs =>
    obtain ⟨he, hp⟩ := literals_of_derives hsign he hp.2
    obtain ⟨hs, hp⟩ := literals_of_derivesSteps hsign hs hp.2
    exact ⟨stepLiterals_cons ha he hs, hp⟩

end

theorem literals_of_parseBinding {start stop : Nat} {cs rest : List Char}
    (h : parseBinding start cs = .ok (e, stop, rest)) : e.Literals (LiteralIn cs) := by
  obtain ⟨ts, hscan, ht⟩ := parseBinding_scans start cs _ h
  obtain ⟨l, ts', -, -, hn⟩ := parseTokens_closes start ts _ ht
  have hp := Lexemes.all_scan (p := fun t => ∀ v, t.literal? = some v → LiteralIn cs v) (cs.length + 1) 0
    (start + 2) fun cs' t n hs hr v hv => (hr.literalIn hv).of_suffix hs
  rw [hscan] at hp
  exact (literals_of_derives (literals_signedBy (fun _ => .inl (.int _)) fun _ => .neg)
    (parseNested_derives _ _ _ _ _ hn) hp).1

end Expr

theorem Path.decimalValue_append_zeros (cs : List Char) (n : Nat) :
    decimalValue (cs ++ List.replicate n '0') = Nat.pow 10 n * decimalValue cs := by
  induction n with
  | zero => exact (congrArg decimalValue (List.append_nil cs)).trans (Nat.one_mul _).symm
  | succ n hi =>
    rw [List.replicate_succ', ← List.append_assoc, decimalValue, List.foldl_concat]
    change 10 * decimalValue _ + 0 = Nat.pow 10 n * 10 * _
    rw [hi, Nat.add_zero, Nat.mul_left_comm, Nat.mul_assoc]

-- Wherever such a decimal is the whole of a binding, its value is infinite.
namespace Overlong

theorem of_zeros {k : Nat} (hk : 52 + Binary64.unit ≤ 93 * k) :
    Overlong ('1' :: List.replicate (28 * k + 1) '0') ['0'] where
  ne_nil := ⟨List.cons_ne_nil _ _, List.cons_ne_nil _ _⟩
  digits := by
    intro c hc
    simp only [List.mem_append, List.mem_cons, List.mem_replicate, List.not_mem_nil, or_false] at hc
    rcases hc with (rfl | ⟨-, rfl⟩) | rfl <;> rfl
  range_le := by
    have hz : '1' :: List.replicate (28 * k + 1) '0' ++ ['0'] =
        ['1'] ++ List.replicate (28 * k + 1 + 1) '0' :=
      congrArg ('1' :: ·) List.replicate_succ'.symm
    rw [hz, Path.decimalValue_append_zeros]
    have hr := Binary64.range_le hk
    change 10 * Binary64.range ≤ 2 * (Nat.pow 10 (28 * k) * 10 * 10 * 1)
    omega

variable {whole fraction : List Char} (h : Overlong whole fraction)

include h

theorem ofDecimal_eq : Binary64.ofDecimal false (Path.decimalValue (whole ++ fraction)) (-fraction.length) =
    .infinity false :=
  (Binary64.isFinite_or_eq_infinity false _ _).resolve_left fun hf =>
    Nat.not_lt.mpr h.range_le ((Binary64.isFinite_ofDecimal_iff _ _ _).mp hf)

theorem next? {rest : List Char} (hr : ∀ c ∈ rest.head?, ¬c.isDigit) (offset : Nat) :
    ∃ l, l.token = .double (.infinity false) ∧
      Lexemes.next? offset (whole ++ '.' :: (fraction ++ rest)) = some (l, rest) := by
  obtain ⟨hw, hf⟩ := List.forall_mem_append.mp h.digits
  have hs : whole ++ '.' :: (fraction ++ rest) = whole ++ '.' :: fraction ++ rest := by simp
  have hl : whole.length + 1 + fraction.length = (whole ++ '.' :: fraction).length := by
    simp [Nat.add_comm, Nat.add_left_comm]
  have hread := Token.read_decimal h.ne_nil.1 hw hf h.ne_nil.2 hr offset
  rw [hs, hl, h.ofDecimal_eq] at hread
  rw [hs]
  refine Lexemes.next?_of_read (List.forall_mem_nil _) (by simp) (fun c hc => ?_) hread
  rw [List.head?_append_of_ne_nil _ h.ne_nil.1] at hc
  exact Token.not_isBlank_of_isDigit (hw c (List.mem_of_head? hc))

theorem parseBinding (start : Nat) (after : List Char) : ∃ stop,
    Expr.parseBinding start (whole ++ '.' :: (fraction ++ '}' :: after)) =
      .ok (.literal (.double (.infinity false)), stop, after) := by
  obtain ⟨l, hl, hn⟩ := h.next? (show ∀ c ∈ ('}' :: after).head?, ¬c.isDigit by simp) (start + 2)
  have hd : l.token.depth? 0 = some 0 := hl ▸ rfl
  have hlen : (whole ++ '.' :: (fraction ++ '}' :: after)).length =
      whole.length + (fraction.length + after.length + 1) + 1 := by simp; omega
  obtain ⟨m, hm, -, hc⟩ := Lexemes.scan_close (List.forall_mem_nil _)
    (whole.length + (fraction.length + after.length + 1)) l.stop after
  obtain ⟨token, start', stop'⟩ := l
  obtain ⟨token', start'', stop⟩ := m
  cases hl
  cases hm
  refine ⟨stop, ?_⟩
  rw [Expr.parseBinding, hlen, Lexemes.scan_next hn hd]
  rw [List.nil_append] at hc
  rw [hc]
  rfl

theorem parse : Template.parse (String.ofList ('@' :: '{' :: (whole ++ '.' :: (fraction ++ ['}'])))) =
    .ok ⟨String.ofList ('@' :: '{' :: (whole ++ '.' :: (fraction ++ ['}']))),
      [.binding (.literal (.double (.infinity false)))]⟩ := by
  obtain ⟨stop, hb⟩ := h.parseBinding 0 []
  rw [Template.parse, String.toList_ofList, List.length_cons, Template.readParts_opening, hb]
  rfl

end Overlong

namespace Template

variable {cs : List Char} {e : Expr} {ps : List Part} {t : Template} {raw : String} {resolve : Resolver}

theorem binding_mem_addChar {c : Char} : Part.binding e ∈ addChar c ps ↔ Part.binding e ∈ ps := by
  unfold addChar
  split <;> simp

theorem exists_parseBinding {fuel offset : Nat} (h : readParts fuel offset cs = .ok ps)
    (he : .binding e ∈ ps) : ∃ start behind y, behind <:+ cs ∧
      Expr.parseBinding start behind = .ok (e, y) := by
  fun_induction readParts fuel offset cs generalizing ps
  case case1 => cases h; contradiction
  case case2 => cases h; contradiction
  case case3 cs hi =>
    obtain ⟨ps, hps, rfl⟩ := map_eq_ok_iff.mp h
    obtain ⟨start, behind, y, hs, hb⟩ := hi hps (binding_mem_addChar.mp (binding_mem_addChar.mp he))
    exact ⟨start, behind, y, hs.trans (List.suffix_append ['\\', '@', '{'] cs), hb⟩
  case case4 offset cs hi =>
    obtain ⟨⟨e', stop, rest⟩, hb', hrest⟩ := bind_eq_ok_iff.mp h
    obtain ⟨ps, hps, rfl⟩ := map_eq_ok_iff.mp hrest
    have hs : cs <:+ '@' :: '{' :: cs := List.suffix_append ['@', '{'] cs
    cases he
    case head => exact ⟨offset, cs, _, hs, hb'⟩
    case tail he =>
      obtain ⟨start, behind, y, hs', hb⟩ := hi stop rest hps he
      exact ⟨start, behind, y, (hs'.trans (Expr.parseBinding_append hb').1).trans hs, hb⟩
  case case5 c cs _ _ hi =>
    obtain ⟨ps, hps, rfl⟩ := map_eq_ok_iff.mp h
    obtain ⟨start, behind, y, hs, hb⟩ := hi hps (binding_mem_addChar.mp he)
    exact ⟨start, behind, y, hs.trans (List.suffix_cons c cs), hb⟩

theorem evaluate_of_endsInfinite {negative : Bool} (hp : t.parts = [.binding e])
    (h : Expr.EndsInfinite resolve e negative) :
    t.evaluate resolve = .double (.infinity negative) := by
  simp only [evaluate, hp]
  exact h.evaluate_eq

theorem finite_or_endsInfinite (ht : parse raw = .ok t)
    (hr : ∀ id v, resolve id = some v → v.Finite) : (t.evaluate resolve).Finite ∨
      ∃ e negative, t.parts = [.binding e] ∧ Expr.EndsInfinite resolve e negative ∧
        HasOverlong raw.toList := by
  obtain ⟨ps, hps, rfl⟩ := map_eq_ok_iff.mp ht
  unfold evaluate
  split
  case h_2 => exact .inl (.string _)
  case h_1 e he =>
    obtain rfl : ps = [.binding e] := he
    obtain ⟨start, behind, y, hs, hb⟩ := exists_parseBinding hps List.mem_cons_self
    refine (Expr.finite_or_endsInfinite hr e (Expr.literals_of_parseBinding hb)).imp_right ?_
    rintro ⟨⟨negative, h⟩, ho⟩
    exact ⟨e, negative, rfl, h, ho.of_suffix hs⟩

-- The value of a template is finite but where its only binding comes to an infinite literal. That is all of
-- the value then, and there is a decimal in the text that is beyond the range of the finite numbers.
theorem finite_evaluate_iff (ht : parse raw = .ok t) (hr : ∀ id v, resolve id = some v → v.Finite) :
    ((t.evaluate resolve).Finite ↔
      ¬∃ e negative, t.parts = [.binding e] ∧ Expr.EndsInfinite resolve e negative) ∧
    (¬(t.evaluate resolve).Finite →
      (∃ negative, t.evaluate resolve = .double (.infinity negative)) ∧ HasOverlong raw.toList) := by
  have hi := finite_or_endsInfinite ht hr
  refine ⟨⟨fun hf => ?_, fun hn => ?_⟩, fun hn => ?_⟩
  case refine_1 =>
    rintro ⟨e, negative, hp, h⟩
    rw [evaluate_of_endsInfinite hp h] at hf
    exact Binary64.not_isFinite_infinity negative (Value.finite_double_iff.mp hf)
  case refine_2 =>
    refine hi.resolve_right ?_
    rintro ⟨e, negative, hp, h, -⟩
    exact hn ⟨e, negative, hp, h⟩
  case refine_3 =>
    obtain ⟨e, negative, hp, h, ho⟩ := hi.resolve_left hn
    exact ⟨⟨negative, evaluate_of_endsInfinite hp h⟩, ho⟩

section Examples

def quotient : Template :=
  ⟨"@\x7b-a / 0.0\x7d",
    [.binding (.binary .div (.unary .neg (.read "a" [])) (.literal (.double (.zero false))))]⟩

theorem quotient_finite : (quotient.evaluate fun _ => some (.int 7)).Finite := by
  have hr (id : String) (v : Value) (hv : some (.int 7) = some v) : v.Finite :=
    Option.some.inj hv ▸ .int 7
  have ht : parse quotient.source = .ok quotient := rfl
  refine (finite_evaluate_iff ht hr).1.mpr ?_
  rintro ⟨e, negative, hp, he⟩
  cases hp
  cases he

theorem exists_evaluate_infinite : ¬∀ raw t (resolve : Resolver), parse raw = .ok t →
    (∀ id v, resolve id = some v → v.Finite) → (t.evaluate resolve).Finite := by
  intro h
  have ho : Overlong ('1' :: List.replicate 309 '0') ['0'] :=
    .of_zeros (show 52 + Binary64.unit ≤ 93 * 11 by rw [Binary64.unit_eq])
  have hf := h _ _ (fun _ => none) ho.parse fun _ _ hv => by cases hv
  exact Binary64.not_isFinite_infinity false (Value.finite_double_iff.mp hf)

end Examples

end Template

end BindingEngine
