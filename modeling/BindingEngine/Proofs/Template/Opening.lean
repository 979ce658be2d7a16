import BindingEngine.Proofs.Document.Restoring

namespace BindingEngine.Template

variable {cs : List Char} {c : Char} {escaped : Bool} {fuel offset : Nat} {raw : String}

def Opened (cs : List Char) : Prop :=
  ∃ before after, cs = before ++ (opening ++ after) ∧ before.getLast? ≠ some '\\'

theorem hasOpening_cons : hasOpening escaped (c :: cs) ↔
    opening <+: c :: cs ∧ escaped = false ∨ hasOpening (c = '\\') cs := by
  have hp : opening <+: c :: cs ↔ c = '@' ∧ cs.head? = some '{' := by
    cases cs <;> simp [opening, eq_comm]
  simp [hasOpening, hp]

theorem hasOpening_iff : hasOpening escaped cs ↔ ∃ before after, cs = before ++ (opening ++ after) ∧
    (before = [] → escaped = false) ∧ before.getLast? ≠ some '\\' := by
  induction cs generalizing escaped
  case nil => simp [hasOpening, opening]
  case cons c cs hi =>
    rw [hasOpening_cons, hi]
    constructor
    case mp =>
      rintro (⟨⟨after, ha⟩, he⟩ | ⟨before, after, rfl, he, hb⟩)
      case inl => exact ⟨[], after, ha.symm, fun _ => he, by simp⟩
      case inr =>
        refine ⟨c :: before, after, rfl, by simp, ?_⟩
        cases before
        case nil => simpa using he
        case cons d before => exact hb
    case mpr =>
      rintro ⟨before, after, ha, he, hb⟩
      cases before
      case nil => exact .inl ⟨⟨after, ha.symm⟩, he rfl⟩
      case cons d before =>
        obtain ⟨rfl, rfl⟩ := List.cons.inj ha
        refine .inr ⟨before, after, rfl, ?_, ?_⟩
        case refine_1 =>
          rintro rfl
          simpa using hb
        case refine_2 =>
          cases before
          case nil => simp
          case cons d before => exact hb

theorem containsBinding_iff : containsBinding raw ↔ Opened raw.toList := by
  rw [containsBinding, hasOpening_iff]
  simp [Opened]

def textParts : List Char → List Part
  | [] => []
  | cs => [.text cs]

theorem addChar_textParts (c : Char) (cs : List Char) :
    addChar c (textParts cs) = textParts (c :: cs) := by
  cases cs <;> rfl

theorem hasOpening_of_escaped (hn : ¬opening <+: cs) (h : hasOpening escaped cs = false) :
    hasOpening false cs = false := by
  cases cs
  case nil => rfl
  case cons c cs =>
    rw [← Bool.not_eq_true, hasOpening_cons] at *
    exact fun ho => h (.inr (ho.resolve_left fun hp => hn hp.1))

theorem readParts_escaped (fuel offset : Nat) (cs : List Char) :
    readParts (fuel + 1) offset ('\\' :: '@' :: '{' :: cs) =
      (fun rest => addChar '@' (addChar '{' rest)) <$> readParts fuel (offset + 3) cs :=
  rfl

theorem readParts_char (he : ¬escapedOpening <+: c :: cs) (ho : ¬opening <+: c :: cs) :
    readParts (fuel + 1) offset (c :: cs) = addChar c <$> readParts fuel (offset + c.utf8Size) cs := by
  rw [readParts]
  case x_3 =>
    rintro rest rfl rfl
    exact he ⟨rest, rfl⟩
  case x_4 =>
    rintro rest rfl rfl
    exact ho ⟨rest, rfl⟩

theorem readParts_textParts (hf : cs.length ≤ fuel) (h : hasOpening false cs = false) :
    readParts fuel offset cs = .ok (textParts (unescape cs)) := by
  fun_induction unescape cs generalizing fuel offset
  case case1 cs hi =>
    obtain ⟨fuel, rfl⟩ := Nat.exists_eq_succ_of_ne_zero (Nat.ne_zero_of_lt hf)
    simp only [List.length_cons] at hf
    rw [readParts_escaped, hi (by omega) h, ← addChar_textParts, ← addChar_textParts]
    rfl
  case case2 c cs hn hi =>
    obtain ⟨fuel, rfl⟩ := Nat.exists_eq_succ_of_ne_zero (Nat.ne_zero_of_lt hf)
    have he : ¬escapedOpening <+: c :: cs := by
      rintro ⟨rest, he⟩
      obtain ⟨rfl, rfl⟩ := List.cons.inj he
      exact hn rest rfl rfl
    have ho := mt hasOpening_cons.mpr (Bool.not_eq_true _ ▸ h)
    rw [not_or, not_and] at ho
    have hp : ¬opening <+: c :: cs := fun hp => ho.1 hp rfl
    -- an opening mark behind a backslash would be escaped
    have hc : hasOpening false cs = false := by
      by_cases hc : c = '\\'
      case pos =>
        refine hasOpening_of_escaped (fun hp => he ?_) (Bool.not_eq_true _ ▸ ho.2)
        exact List.cons_prefix_cons.mpr ⟨hc.symm, hp⟩
      case neg => simpa [hc] using ho.2
    rw [readParts_char he hp, hi (Nat.le_of_succ_le_succ hf) hc, ← addChar_textParts]
    rfl
  case case3 => cases fuel <;> rfl

section Constant

variable {resolve : Resolver}

theorem parse_of_not_containsBinding (h : containsBinding raw = false) :
    parse raw = .ok ⟨raw, textParts (unescape raw.toList)⟩ := by
  rw [parse, readParts_textParts (Nat.le_refl _) h]
  rfl

theorem evaluate_textParts (cs : List Char) :
    (Template.mk raw (textParts cs)).evaluate resolve = .string (String.ofList cs) := by
  cases cs
  case nil => rfl
  case cons c cs => exact congrArg Value.string (String.empty_append (s := String.ofList (c :: cs)))

theorem contextIds_textParts (cs : List Char) : (Template.mk raw (textParts cs)).contextIds = [] := by
  cases cs <;> rfl

end Constant

end BindingEngine.Template
