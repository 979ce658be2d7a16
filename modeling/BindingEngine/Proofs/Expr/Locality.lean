import BindingEngine.Proofs.Expr.Derivation
import BindingEngine.Proofs.Expr.Scanning
import Mathlib.Data.List.TakeWhile
import Mathlib.Tactic.SplitIfs

namespace BindingEngine

section Append

variable {p : Char → Bool} {x : Char} {xs : List Char}

theorem takeWhile_append_of_mem (hx : ¬p x) (hm : x ∈ xs) (ys : List Char) :
    (xs ++ ys).takeWhile p = xs.takeWhile p := by
  rw [List.takeWhile_append, if_neg]
  intro hl
  have he := (List.takeWhile_prefix p).eq_of_length hl
  exact hx (List.takeWhile_eq_self_iff.mp he x hm)

theorem dropWhile_append_of_mem (hx : ¬p x) (hm : x ∈ xs) (ys : List Char) :
    (xs ++ ys).dropWhile p = xs.dropWhile p ++ ys := by
  rw [List.dropWhile_append, if_neg]
  intro he
  exact hx (List.dropWhile_eq_nil_iff.mp (List.isEmpty_iff.mp he) x hm)

theorem mem_dropWhile_of_mem (hx : ¬p x) (hm : x ∈ xs) : x ∈ xs.dropWhile p := by
  rw [← List.takeWhile_append_dropWhile (p := p) (l := xs), List.mem_append] at hm
  exact hm.resolve_left fun hm => hx (List.all_eq_true.mp List.all_takeWhile x hm)

end Append

namespace Token

variable {cs : List Char} {t : Token} {n offset : Nat} {found : Token × Nat}

theorem symbol?_append (h : symbol? cs = some found) (hc : '}' ∈ cs) (after : List Char) :
    symbol? (cs ++ after) = some found := by
  unfold symbol? at h
  split at h
  case h_16 rest _ | h_17 rest _ | h_18 rest _ =>
    -- an equality sign behind it would belong to it
    obtain rfl := Option.some.inj h
    have hne : rest ≠ [] := by
      rintro rfl
      simp at hc
    obtain ⟨d, rest, rfl⟩ := List.exists_cons_of_ne_nil hne
    simp_all [symbol?]
  case h_24 => contradiction
  all_goals exact h

theorem numberText_append_of_mem (hc : '}' ∈ cs) (after : List Char) :
    numberText (cs ++ after) = numberText cs := by
  have hd : ¬Char.isDigit '}' := by decide
  have hm := mem_dropWhile_of_mem hd hc
  have hw := List.all_eq_true.mp (List.all_takeWhile (p := Char.isDigit) (l := cs))
  have hh : ∀ c ∈ (cs.dropWhile Char.isDigit).head?, ¬c.isDigit := by
    intro c hc
    have hn := List.head?_dropWhile_not Char.isDigit cs
    rw [hc] at hn
    simpa using hn
  rw [← List.takeWhile_append_dropWhile (p := Char.isDigit) (l := cs), List.append_assoc]
  generalize cs.takeWhile Char.isDigit = whole at hw
  generalize cs.dropWhile Char.isDigit = rest at hm hh
  obtain ⟨c, rest, rfl⟩ := List.exists_cons_of_ne_nil (List.ne_nil_of_mem hm)
  have hh' : ∀ d ∈ (c :: (rest ++ after)).head?, ¬d.isDigit := hh
  simp only [numberText, List.cons_append, takeWhile_append_of_head hw hh,
    takeWhile_append_of_head hw hh', List.drop_left]
  by_cases hp : c = '.'
  case pos =>
    subst hp
    have hm : '}' ∈ rest := (List.mem_cons.mp hm).resolve_left (by decide)
    simp only [takeWhile_append_of_mem hd hm]
  case neg => simp [hp]

theorem Reads.append (h : Reads cs found) (hc : '}' ∈ cs) (after : List Char) :
    Reads (cs ++ after) found := by
  cases h
  case symbol hs => exact .symbol (symbol?_append hs hc after)
  case string hs =>
    obtain ⟨body, rest, rfl, -, -, hb⟩ := exists_stringBody hs
    rw [List.cons_append, List.append_assoc, List.cons_append]
    exact .string (hb _)
  case double hd hn => exact .double hd (numberText_append_of_mem hc after ▸ hn)
  case int hd hn hi => exact .int hd (numberText_append_of_mem hc after ▸ hn) hi
  case word c cs hs =>
    have hb : ¬isIdentifierPart '}' := by decide
    have hne : '}' ≠ c := by
      rintro rfl
      exact absurd hs (by decide)
    have hm := (List.mem_cons.mp hc).resolve_left hne
    have hw := @Reads.word c (cs ++ after) hs
    rwa [takeWhile_append_of_mem hb hm] at hw

theorem Reads.eq_of_closeBrace (h : Reads cs (.closeBrace, n)) : ∃ rest, cs = '}' :: rest ∧ n = 1 := by
  generalize hf : (closeBrace, n) = found at h
  cases h
  case symbol hs =>
    subst hf
    unfold symbol? at hs
    split at hs
    case h_13 rest => exact ⟨rest, rfl, (Prod.mk.inj (Option.some.inj hs)).2.symm⟩
    case h_24 => contradiction
    all_goals exact Token.noConfusion (Prod.mk.inj (Option.some.inj hs)).1
  case word =>
    have hw := (Prod.mk.inj hf).1
    simp only [Token.word] at hw
    split_ifs at hw
  all_goals exact Token.noConfusion (Prod.mk.inj hf).1

section Depth

def isBrace : Token → Bool
  | openBinding | closeBrace => true
  | _                        => false

theorem depth?_of_not_isBrace (h : t.isBrace = false) (depth : Nat) : t.depth? depth = some depth := by
  cases t <;> first | rfl | contradiction

theorem not_isBrace_of_literal? {v : Value} (h : t.literal? = some v) : t.isBrace = false := by
  cases t <;> first | rfl | contradiction

theorem not_isBrace_of_fieldName? {name : String} (h : Expr.fieldName? t = some name) :
    t.isBrace = false := by
  cases t <;> first | rfl | contradiction

theorem not_isBrace_unary (op : UnaryOp) : op.token.isBrace = false := by
  cases op <;> rfl

theorem not_isBrace_binary (op : BinaryOp) : op.token.isBrace = false := by
  cases op <;> rfl

end Depth

end Token

namespace Lexemes

variable {ts ts' ts'' : Lexemes} {l m : Lexeme} {ls : List Lexeme}

def depth? (depth : Nat) (ls : List Lexeme) : Option Nat :=
  ls.foldlM (fun depth l => l.token.depth? depth) depth

-- Tokens are taken away, and every binding that they open they close.
def Balanced (ts ts' : Lexemes) : Prop :=
  ∃ ls, ts = prepend ls ts' ∧ ∀ depth, depth? depth ls = some depth

namespace Balanced

theorem refl (ts : Lexemes) : Balanced ts ts :=
  ⟨[], rfl, fun _ => rfl⟩

theorem trans (h : Balanced ts ts') (h' : Balanced ts' ts'') : Balanced ts ts'' := by
  obtain ⟨ls, rfl, hd⟩ := h
  obtain ⟨ls', rfl, hd'⟩ := h'
  refine ⟨ls ++ ls', (prepend_append ls ls' ts'').symm, fun depth => ?_⟩
  rw [depth?, List.foldlM_append]
  exact Option.bind_eq_some_iff.mpr ⟨depth, hd depth, hd' depth⟩

theorem cons (hl : l.token.isBrace = false) (h : Balanced ts ts') : Balanced (.cons l ts) ts' := by
  obtain ⟨ls, rfl, hd⟩ := h
  refine ⟨l :: ls, rfl, fun depth => ?_⟩
  rw [depth?, List.foldlM_cons, Token.depth?_of_not_isBrace hl]
  exact hd depth

theorem group (hl : l.token.closing? = some m.token) (h : Balanced ts (.cons m ts')) :
    Balanced (.cons l ts) ts' := by
  obtain ⟨t, start, stop⟩ := l
  cases t <;> try contradiction
  case leftParen =>
    have hm := Option.some.inj hl
    exact (h.trans (.cons (hm ▸ rfl) (.refl ts'))).cons rfl
  case openBinding =>
    have hm := Option.some.inj hl
    obtain ⟨ls, rfl, hd⟩ := h
    refine ⟨⟨.openBinding, start, stop⟩ :: (ls ++ [m]), ?_, fun depth => ?_⟩
    case refine_1 => rw [prepend_cons, prepend_append, prepend_cons, prepend_nil]
    case refine_2 =>
      have hls : depth? (depth + 1) (ls ++ [m]) = some depth := by
        rw [depth?, List.foldlM_append]
        exact Option.bind_eq_some_iff.mpr ⟨depth + 1, hd _, by simp [← hm, Token.depth?]⟩
      exact hls

end Balanced

end Lexemes

namespace Expr

open Lexemes (Balanced)

mutual

theorem balanced_of_derives {ts ts' : Lexemes} {e : Expr} (h : Derives ts e ts') :
    Balanced ts ts' := by
  match h with
  | .literal hl => exact .cons (Token.not_isBrace_of_literal? hl) (.refl _)
  | .read hl hs => exact .cons (hl ▸ rfl) (balanced_of_derivesSteps hs)
  | .group hl he => exact .group hl (balanced_of_derives he)
  | .signed hl he => exact .cons (hl ▸ Token.not_isBrace_unary _) (balanced_of_derives he)
  | .binary hl ho hr =>
    exact (balanced_of_derives hl).trans
      (.cons (ho ▸ Token.not_isBrace_binary _) (balanced_of_derives hr))
  | .conditional hc hl ht hm hf =>
    exact (balanced_of_derives hc).trans (.cons (hl ▸ rfl)
      ((balanced_of_derives ht).trans (.cons (hm ▸ rfl) (balanced_of_derives hf))))

theorem balanced_of_derivesSteps {ts ts' : Lexemes} {steps : List Accessor}
    (h : DerivesSteps ts steps ts') : Balanced ts ts' := by
  match h with
  | .nil ts => exact .refl ts
  | .field hl hm hs =>
    exact .cons (hl ▸ rfl)
      (.cons (Token.not_isBrace_of_fieldName? hm) (balanced_of_derivesSteps hs))
  | .bracket hl he hm _ hs =>
    exact .cons (hl ▸ rfl)
      ((balanced_of_derives he).trans (.cons (hm ▸ rfl) (balanced_of_derivesSteps hs)))

end

end Expr

namespace Lexemes

variable {ts : Lexemes} {l : Lexeme} {ls : List Lexeme} {cs rest : List Char}
  {fuel depth depth' offset : Nat}

section Next

variable (h : next? offset cs = some (l, rest))

include h

theorem next?_append (hc : '}' ∈ cs) (after : List Char) :
    next? offset (cs ++ after) = some (l, rest ++ after) := by
  obtain ⟨n, hr, hstart, hstop, rfl⟩ := next?_eq_some_iff.mp h
  have hb : ¬Text.isBlank '}' := by decide
  obtain ⟨raw, rest, hraw, rfl, -, -⟩ := Token.read_spelled hr
  have hr := Token.read_of_reads ((Token.reads_of_read hr).append (mem_dropWhile_of_mem hb hc) after)
    l.start
  rw [next?_eq_some_iff, takeWhile_append_of_mem hb hc, dropWhile_append_of_mem hb hc]
  refine ⟨raw.length, hr, hstart, ?_, ?_⟩
  case refine_1 => rw [hstop, hraw, List.append_assoc, List.take_left, List.take_left]
  case refine_2 => rw [hraw, List.append_assoc, List.drop_left, List.drop_left]

theorem stop_of_next? : ∃ used, used ≠ [] ∧ cs = used ++ rest ∧ l.stop = offset + byteLength used := by
  obtain ⟨n, hr, hstart, hstop, rfl⟩ := next?_eq_some_iff.mp h
  obtain ⟨raw, rest, hraw, rfl, hne, -⟩ := Token.read_spelled hr
  refine ⟨cs.takeWhile Text.isBlank ++ raw, List.append_ne_nil_of_right_ne_nil _ hne, ?_, ?_⟩
  case refine_1 => rw [hraw, List.drop_left, List.append_assoc, ← hraw, List.takeWhile_append_dropWhile]
  case refine_2 => rw [hstop, hstart, hraw, List.take_left, byteLength_append, Nat.add_assoc]

theorem closing_of_next? (hl : l.token = .closeBrace) :
    ∃ blanks, cs = blanks ++ '}' :: rest ∧ l.stop = offset + byteLength blanks + 1 := by
  obtain ⟨n, hr, hstart, hstop, rfl⟩ := next?_eq_some_iff.mp h
  obtain ⟨rest, hd, rfl⟩ := (Token.reads_of_read (hl ▸ hr)).eq_of_closeBrace
  rw [hd] at hstop ⊢
  refine ⟨cs.takeWhile Text.isBlank, ?_, hstop.trans (congrArg (· + 1) hstart)⟩
  rw [List.drop_one, List.tail_cons, ← hd, List.takeWhile_append_dropWhile]

end Next

theorem scan_closes (hd : depth? depth ls = some 0) (hl : l.token = .closeBrace)
    (h : scan fuel depth offset cs = (prepend ls (cons l ts), rest)) :
    ∃ used, cs = used ++ '}' :: rest ∧ l.stop = offset + byteLength used + 1 := by
  induction ls generalizing fuel depth offset cs
  case nil =>
    obtain rfl := Option.some.inj hd
    obtain ⟨fuel, rest', rfl, hn⟩ := exists_next? h
    rw [prepend_nil, scan_closed hn hl] at h
    cases h
    exact closing_of_next? hn hl
  case cons m ls hi =>
    obtain ⟨fuel, rest', rfl, hn⟩ := exists_next? h
    rw [depth?, List.foldlM_cons] at hd
    obtain ⟨depth', hm, hd⟩ := Option.bind_eq_some_iff.mp hd
    rw [scan_next hn hm] at h
    obtain ⟨hts, hrest⟩ := Prod.mk.inj h
    obtain ⟨used, rfl, hstop⟩ := hi hd (Prod.ext (cons.inj hts).2 hrest)
    obtain ⟨front, -, rfl, hm⟩ := stop_of_next? hn
    refine ⟨front ++ used, (List.append_assoc _ _ _).symm, ?_⟩
    rw [hstop, hm, byteLength_append, Nat.add_assoc offset]

-- The tokens up to the brace that closes a binding are the same whatever follows, since none of them
-- reaches the end of the text.
theorem scan_append (hd : depth? depth ls = some 0) (hl : l.token = .closeBrace)
    (h : scan fuel depth offset cs = (prepend ls (cons l ts), rest)) (after : List Char) {fuel' : Nat}
    (hf : (cs ++ after).length < fuel') :
    scan fuel' depth offset (cs ++ after) = (prepend ls (cons l ts), rest ++ after) := by
  induction ls generalizing fuel depth offset cs fuel'
  all_goals
    obtain ⟨used, hcs, -⟩ := scan_closes hd hl h
    have hc : '}' ∈ cs := hcs ▸ List.mem_append_right _ List.mem_cons_self
    obtain ⟨fuel', rfl⟩ := Nat.exists_eq_succ_of_ne_zero (Nat.ne_zero_of_lt hf)
    obtain ⟨fuel, rest', rfl, hn⟩ := exists_next? h
  case nil =>
    obtain rfl := Option.some.inj hd
    rw [prepend_nil, scan_closed hn hl] at h
    cases h
    exact scan_closed (next?_append hn hc after) hl
  case cons m ls hi =>
    rw [depth?, List.foldlM_cons] at hd
    obtain ⟨depth', hm, hd⟩ := Option.bind_eq_some_iff.mp hd
    rw [scan_next hn hm] at h
    obtain ⟨hts, hrest⟩ := Prod.mk.inj h
    obtain ⟨front, hne, rfl, -⟩ := stop_of_next? hn
    have hp := List.length_pos_iff.mpr hne
    have hf : (rest' ++ after).length < fuel' := by
      simp only [List.length_append] at hf ⊢
      omega
    rw [scan_next (next?_append hn hc after) hm, hi hd (Prod.ext (cons.inj hts).2 hrest) hf]
    rfl

end Lexemes

namespace Expr

variable {start stop : Nat} {cs rest : List Char} {e : Expr}

theorem parseBinding_balanced (h : parseBinding start cs = .ok (e, stop, rest)) : ∃ ls l ts,
    Lexemes.depth? 0 ls = some 0 ∧ l.token = .closeBrace ∧ l.stop = stop ∧
    Lexemes.scan (cs.length + 1) 0 (start + 2) cs = (Lexemes.prepend ls (.cons l ts), rest) ∧
    parseTokens start (Lexemes.prepend ls (.cons l ts)) = .ok (e, stop) := by
  obtain ⟨ts, hscan, ht⟩ := parseBinding_scans start cs _ h
  obtain ⟨l, ts', hl, hstop, hn⟩ := parseTokens_closes start ts _ ht
  obtain ⟨ls, rfl, hb⟩ := balanced_of_derives (parseNested_derives _ _ _ _ _ hn)
  exact ⟨ls, l, ts', hb 0, hl, hstop, hscan, ht⟩

theorem parseBinding_closes (h : parseBinding start cs = .ok (e, stop, rest)) :
    ∃ used, cs = used ++ '}' :: rest ∧ stop = start + 2 + byteLength used + 1 := by
  obtain ⟨ls, l, ts, hb, hl, rfl, hscan, -⟩ := parseBinding_balanced h
  exact Lexemes.scan_closes hb hl hscan

theorem parseBinding_append (h : parseBinding start cs = .ok (e, stop, rest)) :
    rest <:+ cs ∧ ∀ after, parseBinding start (cs ++ after) = .ok (e, stop, rest ++ after) := by
  obtain ⟨ls, l, ts, hb, hl, -, hscan, ht⟩ := parseBinding_balanced h
  obtain ⟨used, hcs, -⟩ := parseBinding_closes h
  refine ⟨⟨used ++ ['}'], by rw [hcs, List.append_assoc, List.singleton_append]⟩, fun after => ?_⟩
  simp only [parseBinding, Lexemes.scan_append hb hl hscan after (Nat.lt_succ_self _), ht]
  rfl

end Expr

end BindingEngine
