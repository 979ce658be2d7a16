import BindingEngine.Proofs.Template.Composition
import BindingEngine.Proofs.Text.Replacement

namespace BindingEngine

namespace Template

variable {cs : List Char} {ps : List Part} {fuel offset : Nat} {escaped : Bool} {raw : String} {t : Template}

section Bindings

theorem any_isBinding_addChar (c : Char) (ps : List Part) :
    (addChar c ps).any Part.isBinding = ps.any Part.isBinding := by
  match ps with
  | [] | .text _ :: _ | .binding _ :: _ => rfl

theorem hasOpening_unescaped (h : hasOpening escaped cs) : hasOpening false cs := by
  cases cs
  case nil => exact h
  case cons c cs =>
    rw [hasOpening_cons] at *
    exact h.imp_left fun hp => ⟨hp.1, rfl⟩

-- The first opening mark without a backslash is reached, unless a binding is read before it: neither an escape nor
-- a character of the text takes it away.
theorem any_isBinding_readParts (hf : cs.length ≤ fuel) (h : readParts fuel offset cs = .ok ps)
    (ho : hasOpening false cs) : ps.any Part.isBinding := by
  fun_induction readParts fuel offset cs generalizing ps
  case case1 => contradiction
  case case2 cs hne => exact absurd (List.length_eq_zero_iff.mp (Nat.le_zero.mp hf)) hne
  case case3 fuel offset cs hi =>
    obtain ⟨ps, hps, rfl⟩ := map_eq_ok_iff.mp h
    simp only [List.length_cons] at hf
    rw [any_isBinding_addChar, any_isBinding_addChar]
    exact hi (by omega) hps ho
  case case4 fuel offset cs hi =>
    obtain ⟨⟨e, stop, rest⟩, -, h⟩ := bind_eq_ok_iff.mp h
    obtain ⟨ps, -, rfl⟩ := map_eq_ok_iff.mp h
    rfl
  case case5 fuel offset c cs he hp hi =>
    obtain ⟨-, hp⟩ := not_prefix_of_char he hp
    obtain ⟨ps, hps, rfl⟩ := map_eq_ok_iff.mp h
    rw [any_isBinding_addChar]
    have ho := (hasOpening_cons.mp ho).resolve_left fun hm => hp hm.1
    exact hi (Nat.le_of_succ_le_succ hf) hps (hasOpening_unescaped ho)

theorem hasBindings_textParts (cs : List Char) : (Template.mk raw (textParts cs)).hasBindings = false := by
  cases cs <;> rfl

theorem hasBindings_iff (h : parse raw = .ok t) : t.hasBindings ↔ containsBinding raw := by
  constructor
  case mp =>
    intro hb
    by_contra hc
    rw [parse_of_not_containsBinding (Bool.not_eq_true _ ▸ hc)] at h
    obtain rfl := Except.ok.inj h
    rw [hasBindings_textParts] at hb
    contradiction
  case mpr =>
    intro hc
    obtain ⟨ps, hps, rfl⟩ := map_eq_ok_iff.mp h
    exact any_isBinding_readParts (Nat.le_refl _) hps hc

end Bindings

section Escaping

def escape : List Char → List Char
  | '@' :: '{' :: cs => '\\' :: '@' :: '{' :: escape cs
  | c :: cs          => c :: escape cs
  | []               => []

theorem escape_char {c : Char} (hp : ¬opening <+: c :: cs) : escape (c :: cs) = c :: escape cs := by
  rw [escape]
  rintro rest rfl rfl
  exact hp ⟨rest, rfl⟩

theorem brace_of_escape (h : ['{'] <+: escape cs) : ['{'] <+: cs := by
  cases cs
  case nil => exact h
  case cons c cs =>
    by_cases hp : opening <+: c :: cs
    case pos =>
      obtain ⟨rest, he⟩ := hp
      rw [← he] at h
      simp [opening, escape] at h
    case neg =>
      rw [escape_char hp] at h
      exact List.cons_prefix_cons.mpr ⟨(List.cons_prefix_cons.mp h).1, List.nil_prefix⟩

theorem not_opening_escape (cs : List Char) : ¬opening <+: escape cs := by
  fun_cases escape cs
  case case1 => simp [opening]
  case case2 c cs hn =>
    intro hp
    obtain ⟨rfl, hb⟩ := List.cons_prefix_cons.mp hp
    obtain ⟨rest, rfl⟩ := brace_of_escape hb
    exact hn rest rfl rfl
  case case3 => simp [opening]

theorem hasOpening_escape (escaped : Bool) (cs : List Char) : hasOpening escaped (escape cs) = false := by
  fun_induction escape cs generalizing escaped
  case case1 cs hi => simp [hasOpening, hi]
  case case2 c cs hn hi =>
    have he : escape (c :: cs) = c :: escape cs := by
      rw [escape]
      exact hn
    have hp : ¬opening <+: c :: escape cs := he ▸ not_opening_escape (c :: cs)
    rw [← Bool.not_eq_true, hasOpening_cons, hi]
    simp [hp]
  case case3 => rfl

theorem unescape_escape (cs : List Char) : unescape (escape cs) = cs := by
  fun_induction escape cs
  case case1 cs hi => rw [unescape, hi]
  case case2 c cs hn hi =>
    rw [unescape, hi]
    rintro rest rfl he
    exact not_opening_escape cs ⟨rest, he.symm⟩
  case case3 => rfl

theorem replaces_unescape : Text.Replaces escapedOpening opening unescape where
  nil := rfl
  found _ := rfl
  passed {c cs} hp := by
    rw [unescape]
    rintro rest rfl rfl
    exact hp ⟨rest, rfl⟩

theorem replaces_escape : Text.Replaces opening escapedOpening escape :=
  ⟨rfl, fun _ => rfl, escape_char⟩

theorem unescapeText_eq_replace (raw : String) : unescapeText raw = raw.replace "\\@\x7b" "@\x7b" := by
  have h : Text.Replaces "\\@\x7b".toList "@\x7b".toList unescape := replaces_unescape
  rw [← String.toList_inj, Text.toList_replace (by decide) h, unescapeText, String.toList_ofList]

def escapeText (s : String) : String := s.replace "@\x7b" "\\@\x7b"

theorem toList_escapeText (s : String) : (escapeText s).toList = escape s.toList := by
  have h : Text.Replaces "@\x7b".toList "\\@\x7b".toList escape := replaces_escape
  exact Text.toList_replace (by decide) h s

theorem not_containsBinding_escapeText (s : String) : containsBinding (escapeText s) = false := by
  rw [containsBinding, toList_escapeText]
  exact hasOpening_escape false s.toList

theorem unescapeText_escapeText (s : String) : unescapeText (escapeText s) = s := by
  rw [unescapeText, toList_escapeText, unescape_escape, String.ofList_toList]

end Escaping

section Constants

-- The template reads nothing and is worth the text, whatever there is to read.
structure StandsFor (t : Template) (s : String) : Prop where
  unbound : t.hasBindings = false
  contextIds : t.contextIds = []
  evaluate : ∀ resolve, t.evaluate resolve = .string s

-- Whoever reads `raw` takes it for the text `s`.
structure Constant (raw s : String) : Prop where
  unbound : containsBinding raw = false
  template : ∃ t, parse raw = .ok t ∧ t.StandsFor s
  data : Data.parse (.string raw) = .ok (.value (.string s))
  ofText : Expression.ofText raw = .ok (.value s)
  decode : (Expression.decode (.string raw) : Decoded (Expression String)) = .ok (.value s)

theorem constant_unescapeText (h : containsBinding raw = false) :
    Constant raw (unescapeText raw) where
  unbound := h
  template := ⟨_, parse_of_not_containsBinding h,
    hasBindings_textParts _, contextIds_textParts _, fun _ => evaluate_textParts _⟩
  data := by
    rw [Data.parse, h]
    rfl
  ofText := by
    rw [Expression.ofText, h]
    rfl
  decode := by
    rw [Expression.decode, h]
    rfl

-- A mark without a backslash in front of it is all that the test looks for. The readers agree with it on which texts
-- have bindings, and with each other on what the others stand for. Every text is what another one stands for.
theorem readers_agree (raw s : String) :
    (containsBinding raw ↔ Opened raw.toList) ∧
    (containsBinding raw = false → Constant raw (raw.replace "\\@\x7b" "@\x7b")) ∧
    (∀ t, parse raw = .ok t → (t.hasBindings ↔ containsBinding raw)) ∧
    Constant (escapeText s) s := by
  refine ⟨containsBinding_iff, fun h => ?_, fun t ht => hasBindings_iff ht, ?_⟩
  case refine_1 =>
    rw [← unescapeText_eq_replace]
    exact constant_unescapeText h
  case refine_2 =>
    have hc := constant_unescapeText (not_containsBinding_escapeText s)
    rwa [unescapeText_escapeText] at hc

def mixed : Template :=
  ⟨"\\@\x7bnot\x7d @\x7ba\x7d", [.text "@\x7bnot\x7d ".toList, .binding (.read "a" [])]⟩

-- Of two backslashes the second escapes the mark, and a text with an escaped mark gets another backslash.
theorem mixed_agrees :
    (containsBinding "\\\\@\x7ba\x7d" = false ∧ Constant "\\\\@\x7ba\x7d" "\\@\x7ba\x7d") ∧
    (parse mixed.source = .ok mixed ∧ containsBinding mixed.source ∧ mixed.hasBindings) ∧
    Constant (escapeText "\\@\x7ba\x7d") "\\@\x7ba\x7d" := by
  have hn : containsBinding "\\\\@\x7ba\x7d" = false := rfl
  have hp : parse mixed.source = .ok mixed := rfl
  have hb : containsBinding mixed.source := rfl
  obtain ⟨-, hc, -, he⟩ := readers_agree "\\\\@\x7ba\x7d" "\\@\x7ba\x7d"
  have hc := hc hn
  rw [← unescapeText_eq_replace] at hc
  exact ⟨⟨hn, hc⟩, ⟨hp, hb, ((readers_agree mixed.source "").2.2.1 mixed hp).mpr hb⟩, he⟩

end Constants

end Template

end BindingEngine
