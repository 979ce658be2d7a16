import BindingEngine.Proofs.Expr.Culprits
import BindingEngine.Proofs.Template.Composition

namespace BindingEngine.Template

variable {text before cs : List Char} {raw : String} {e : ParseError}

theorem readParts_blames {fuel offset : Nat} (ht : text = before ++ cs) (ho : byteLength before = offset)
    (hb : opening <+: cs → before.getLast? ≠ some '\\') :
    Blames text (fun _ => True) (readParts fuel offset cs) := by
  fun_induction readParts fuel offset cs generalizing before
  case case1 => trivial
  case case2 => trivial
  case case3 offset cs hi =>
    have ht : text = (before ++ escapedOpening) ++ cs := by simp [ht, escapedOpening, opening]
    refine Blames.map (hi ht ?_ fun _ => by simp [escapedOpening, opening])
    rw [byteLength_append, ho]
    rfl
  case case4 fuel offset cs hi =>
    subst ho
    have h := Expr.parseBinding_blames (show text = before ++ (opening ++ cs) from ht)
      (hb (List.prefix_append _ _))
    cases hp : Expr.parseBinding (byteLength before) cs
    case error => rwa [hp] at h
    case ok y =>
      obtain ⟨e, stop, rest⟩ := y
      obtain ⟨used, rfl, rfl⟩ := Expr.parseBinding_closes hp
      have ht : text = (before ++ opening ++ used ++ ['}']) ++ rest := by simp [ht, opening]
      refine Blames.map (hi _ _ ht ?_ fun _ => by simp)
      simp only [byteLength_append]
      rfl
  case case5 fuel offset c cs he ho' hi =>
    obtain ⟨he, ho'⟩ := not_prefix_of_char he ho'
    have ht : text = (before ++ [c]) ++ cs := by simp [ht]
    refine Blames.map (hi ht ?_ fun hp hl => he ?_)
    case refine_1 =>
      rw [byteLength_append, ho]
      rfl
    case refine_2 =>
      obtain rfl : c = '\\' := by simpa using hl
      exact List.cons_prefix_cons.mpr ⟨rfl, hp⟩

-- What a text is refused for stands at the offset that is reported.
theorem parse_error_culprit (h : parse raw = .error e) :
    ∃ before after, raw.toList = before ++ after ∧ byteLength before = e.offset ∧ e.Culprit before after := by
  have hr : Blames raw.toList (fun _ => True) (parse raw) :=
    Blames.map (readParts_blames (List.nil_append _).symm rfl fun _ => (Option.some_ne_none _).symm)
  rwa [h] at hr

-- The quote behind the backslash does not close the string, and `ü` has two bytes.
theorem escaped_quote_culprit :
    parse "ü@\x7ba[b + 'x\\']\x7d" = .error (.unterminatedString 10) ∧
    ∃ before after, "ü@\x7ba[b + 'x\\']\x7d".toList = before ++ after ∧ byteLength before = 10 ∧
      ∃ cs, after = '\'' :: cs ∧ Token.Unclosed cs :=
  ⟨rfl, parse_error_culprit (e := .unterminatedString 10) rfl⟩

end BindingEngine.Template
