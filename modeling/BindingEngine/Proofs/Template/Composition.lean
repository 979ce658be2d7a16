import BindingEngine.Proofs.Expr.Locality
import BindingEngine.Proofs.Expr.Places
import BindingEngine.Proofs.Expr.Reads
import BindingEngine.Proofs.Template.Opening

namespace BindingEngine.Template

-- No opening mark begins in one text and ends in the other, and none is escaped by the end of the first.
structure Apart (a b : List Char) : Prop where
  escape : ¬(['\\'] <:+ a ∧ opening <+: b)
  mark : ¬(['@'] <:+ a ∧ ['{'] <+: b)

section Parts

variable {c : Char} {p : Part} {ps qs : List Part}

def addPart : Part → List Part → List Part
  | .text cs, .text ds :: parts => .text (cs ++ ds) :: parts
  | p, parts                    => p :: parts

def joinParts (ps qs : List Part) : List Part := ps.foldr addPart qs

theorem addPart_text (c : Char) (cs : List Char) (ps : List Part) :
    addPart (.text (c :: cs)) ps = addChar c (addPart (.text cs) ps) := by
  match ps with
  | [] | .text _ :: _ | .binding _ :: _ => rfl

theorem addPart_char (c : Char) (ps : List Part) : addPart (.text [c]) ps = addChar c ps := by
  match ps with
  | [] | .text _ :: _ | .binding _ :: _ => rfl

theorem joinParts_addChar (c : Char) (ps qs : List Part) :
    joinParts (addChar c ps) qs = addChar c (joinParts ps qs) := by
  match ps with
  | [] => exact addPart_char c qs
  | .text cs :: ps => exact addPart_text c cs (joinParts ps qs)
  | .binding e :: ps => rfl

theorem flatMap_joinParts {β : Type} {f : Part → List β}
    (hf : ∀ cs ds, f (.text (cs ++ ds)) = f (.text cs) ++ f (.text ds)) (ps qs : List Part) :
    (joinParts ps qs).flatMap f = ps.flatMap f ++ qs.flatMap f := by
  have hadd (p : Part) (qs : List Part) : (addPart p qs).flatMap f = f p ++ qs.flatMap f := by
    unfold addPart
    split
    case h_1 cs ds parts => rw [List.flatMap_cons, hf, List.append_assoc, List.flatMap_cons]
    case h_2 => exact List.flatMap_cons
  induction ps
  case nil => rfl
  case cons p ps hi =>
    rw [List.flatMap_cons, List.append_assoc, ← hi]
    exact hadd p (joinParts ps qs)

end Parts

section Reading

variable {a b cs : List Char} {c : Char} {fuel fuel' offset k : Nat} {ps qs : List Part}

theorem Apart.suffix (h : Apart a b) (hs : cs <:+ a) : Apart cs b :=
  ⟨fun he => h.escape ⟨he.1.trans hs, he.2⟩, fun hm => h.mark ⟨hm.1.trans hs, hm.2⟩⟩

theorem Apart.not_opening (h : Apart (c :: cs) b) (ho : ¬opening <+: c :: cs) :
    ¬opening <+: c :: (cs ++ b) := by
  intro hp
  cases cs
  case nil =>
    obtain ⟨rfl, hb⟩ := List.cons_prefix_cons.mp hp
    exact h.mark ⟨List.suffix_refl _, hb⟩
  case cons d cs => exact ho (by simpa [opening] using hp)

theorem Apart.not_escapedOpening (h : Apart (c :: cs) b) (he : ¬escapedOpening <+: c :: cs) :
    ¬escapedOpening <+: c :: (cs ++ b) := by
  intro hp
  obtain ⟨rfl, hm⟩ := List.cons_prefix_cons.mp hp
  cases cs
  case nil => exact h.escape ⟨List.suffix_refl _, hm⟩
  case cons d cs =>
    have h := h.suffix (List.suffix_cons _ _)
    refine h.not_opening (fun ho => he ?_) hm
    exact List.cons_prefix_cons.mpr ⟨rfl, ho⟩

theorem readParts_opening (fuel offset : Nat) (cs : List Char) :
    readParts (fuel + 1) offset ('@' :: '{' :: cs) = Expr.parseBinding offset cs >>= fun y =>
      (.binding y.1 :: ·) <$> readParts fuel y.2.1 y.2.2 :=
  rfl

theorem not_prefix_of_char (he : ∀ rest, c = '\\' → cs = '@' :: '{' :: rest → False)
    (ho : ∀ rest, c = '@' → cs = '{' :: rest → False) :
    ¬escapedOpening <+: c :: cs ∧ ¬opening <+: c :: cs := by
  constructor
  case left =>
    rintro ⟨rest, h⟩
    obtain ⟨rfl, rfl⟩ := List.cons.inj h
    exact he rest rfl rfl
  case right =>
    rintro ⟨rest, h⟩
    obtain ⟨rfl, rfl⟩ := List.cons.inj h
    exact ho rest rfl rfl

theorem moved_map {α β : Type} (g : α → β) (x : Except ParseError α) :
    g <$> moved k id x = moved k id (g <$> x) := by
  cases x <;> rfl

theorem readParts_add (fuel offset k : Nat) (cs : List Char) :
    readParts fuel (offset + k) cs = moved k id (readParts fuel offset cs) := by
  fun_induction readParts fuel offset cs
  case case1 => simp only [readParts, moved, id]
  case case2 cs _ => cases cs <;> rfl
  case case3 fuel offset cs hi =>
    rw [readParts_escaped, Nat.add_right_comm, hi, moved_map]
  case case4 fuel offset cs hi =>
    rw [readParts_opening]
    refine moved_bind (Expr.parseBinding_add offset k cs) fun y => ?_
    exact (congrArg _ (hi y.2.1 y.2.2)).trans (moved_map _ _)
  case case5 fuel offset c cs he ho hi =>
    obtain ⟨he, ho⟩ := not_prefix_of_char he ho
    rw [readParts_char he ho, Nat.add_right_comm, hi, moved_map]

-- The rounds are enough if there are as many as characters.
theorem readParts_of_le (hf : cs.length ≤ fuel) (hf' : cs.length ≤ fuel') :
    readParts fuel offset cs = readParts fuel' offset cs := by
  fun_induction readParts fuel offset cs generalizing fuel'
  case case1 => rw [readParts]
  case case2 cs hne => exact absurd (List.length_eq_zero_iff.mp (Nat.le_zero.mp hf)) hne
  case case3 fuel offset cs hi =>
    obtain ⟨fuel', rfl⟩ := Nat.exists_eq_succ_of_ne_zero (Nat.ne_zero_of_lt hf')
    simp only [List.length_cons] at hf hf'
    have hi := @hi fuel' (by omega) (by omega)
    rw [readParts_escaped, hi]
  case case4 fuel offset cs hi =>
    obtain ⟨fuel', rfl⟩ := Nat.exists_eq_succ_of_ne_zero (Nat.ne_zero_of_lt hf')
    simp only [List.length_cons] at hf hf'
    rw [readParts_opening]
    cases hb : Expr.parseBinding offset cs
    case error => rfl
    case ok y =>
      obtain ⟨e, stop, rest⟩ := y
      obtain ⟨hs, -⟩ := Expr.parseBinding_append hb
      have hl := hs.length_le
      have hi := @hi stop rest fuel' (by omega) (by omega)
      exact congrArg (List.cons (.binding e) <$> ·) hi
  case case5 fuel offset c cs he ho hi =>
    obtain ⟨fuel', rfl⟩ := Nat.exists_eq_succ_of_ne_zero (Nat.ne_zero_of_lt hf')
    obtain ⟨he, ho⟩ := not_prefix_of_char he ho
    rw [readParts_char he ho, hi (Nat.le_of_succ_le_succ hf) (Nat.le_of_succ_le_succ hf')]

theorem readParts_eq (hf : cs.length ≤ fuel) (h : readParts cs.length 0 cs = .ok ps) (offset : Nat) :
    readParts fuel offset cs = .ok ps := by
  rw [← Nat.zero_add offset, readParts_add, readParts_of_le hf (Nat.le_refl _), h]
  rfl

theorem readParts_append (hf : a.length ≤ fuel) (hf' : (a ++ b).length ≤ fuel') (h : Apart a b)
    (ha : readParts fuel offset a = .ok ps) (hb : readParts b.length 0 b = .ok qs) :
    readParts fuel' offset (a ++ b) = .ok (joinParts ps qs) := by
  fun_induction readParts fuel offset a generalizing fuel' ps
  case case1 =>
    -- the second text begins where the first one ends, with any number of rounds left
    cases ha
    exact readParts_eq hf' hb _
  case case2 a hne => exact absurd (List.length_eq_zero_iff.mp (Nat.le_zero.mp hf)) hne
  case case3 fuel offset a hi =>
    obtain ⟨fuel', rfl⟩ := Nat.exists_eq_succ_of_ne_zero (Nat.ne_zero_of_lt hf')
    simp only [List.length_cons, List.length_append] at hf hf'
    have hs : a <:+ '\\' :: '@' :: '{' :: a := List.suffix_append ['\\', '@', '{'] a
    obtain ⟨ps, hps, rfl⟩ := map_eq_ok_iff.mp ha
    have hl : (a ++ b).length ≤ fuel' := by
      rw [List.length_append]
      omega
    have hi := hi (by omega) hl (h.suffix hs) hps
    simp only [List.cons_append]
    rw [readParts_escaped, hi, joinParts_addChar, joinParts_addChar]
    rfl
  case case4 fuel offset a hi =>
    -- behind the binding the first text goes on with a rest that is apart from the second as well
    obtain ⟨fuel', rfl⟩ := Nat.exists_eq_succ_of_ne_zero (Nat.ne_zero_of_lt hf')
    simp only [List.length_cons, List.length_append] at hf hf'
    have hs : a <:+ '@' :: '{' :: a := List.suffix_append ['@', '{'] a
    obtain ⟨⟨e, stop, rest⟩, he, hrest⟩ := bind_eq_ok_iff.mp ha
    obtain ⟨ps, hps, rfl⟩ := map_eq_ok_iff.mp hrest
    obtain ⟨hr, hp⟩ := Expr.parseBinding_append he
    have hl := hr.length_le
    have hl' : (rest ++ b).length ≤ fuel' := by
      rw [List.length_append]
      omega
    have hi := hi stop rest (by omega) hl' (h.suffix (hr.trans hs)) hps
    simp only [List.cons_append]
    rw [readParts_opening, hp b]
    exact congrArg (List.cons (.binding e) <$> ·) hi
  case case5 fuel offset c a he ho hi =>
    obtain ⟨fuel', rfl⟩ := Nat.exists_eq_succ_of_ne_zero (Nat.ne_zero_of_lt hf')
    obtain ⟨he, ho⟩ := not_prefix_of_char he ho
    obtain ⟨ps, hps, rfl⟩ := map_eq_ok_iff.mp ha
    have hi := hi (Nat.le_of_succ_le_succ hf) (Nat.le_of_succ_le_succ hf')
      (h.suffix (List.suffix_cons c a)) hps
    rw [List.cons_append, readParts_char (h.not_escapedOpening he) (h.not_opening ho), hi,
      joinParts_addChar]
    rfl

end Reading

def bindings (t : Template) : List Expr :=
  t.parts.flatMap fun
    | .text _    => []
    | .binding e => [e]

theorem text_evaluate (t : Template) (resolve : Resolver) :
    (t.evaluate resolve).text = String.join (t.parts.map (Part.evaluate resolve)) := by
  unfold evaluate
  split
  case h_1 e he =>
    rw [he]
    exact (String.empty_append (s := (e.evaluate resolve).text)).symm
  case h_2 => rfl

section Composition

variable {a b : String} {ta tb : Template}

-- Templates that are put behind one another are one template: what is written for it is what is written
-- for the first and then for the second.
theorem parse_append (ha : parse a = .ok ta) (hb : parse b = .ok tb)
    (h : Apart a.toList b.toList) : ∃ t, parse (a ++ b) = .ok t ∧
      t.bindings = ta.bindings ++ tb.bindings ∧
      t.contextIds = ta.contextIds ++ tb.contextIds.filter (· ∉ ta.contextIds) ∧
      ∀ resolve, (t.evaluate resolve).text = (ta.evaluate resolve).text ++ (tb.evaluate resolve).text := by
  obtain ⟨ps, hps, rfl⟩ := map_eq_ok_iff.mp ha
  obtain ⟨qs, hqs, rfl⟩ := map_eq_ok_iff.mp hb
  have hp : parse (a ++ b) = .ok ⟨a ++ b, joinParts ps qs⟩ := by
    rw [parse, String.toList_append, readParts_append (Nat.le_refl _) (Nat.le_refl _) h hps hqs]
    rfl
  refine ⟨_, hp, flatMap_joinParts (fun _ _ => rfl) ps qs, ?_, fun resolve => ?_⟩
  case refine_1 =>
    rw [contextIds, flatMap_joinParts (fun _ _ => rfl), distinct_append]
    rfl
  case refine_2 =>
    simp only [text_evaluate, ← String.toList_inj, String.toList_append, String.toList_join,
      List.flatMap_map]
    exact flatMap_joinParts (fun cs ds => by simp [Part.evaluate]) ps qs

-- A binding with a brace in a string and another binding inside, in front of a text that begins with a
-- brace.
def greeting : Template :=
  ⟨"für @\x7bx ? '\x7d' : @\x7by\x7d\x7d", [.text "für ".toList,
    .binding (.conditional (.read "x" []) (.literal (.string "\x7d")) (.read "y" []))]⟩

def closing : Template :=
  ⟨"\x7b@\x7bx\x7d\x7d \\@\x7bz @\x7bw\x7d", [.text ['{'], .binding (.read "x" []),
    .text "\x7d @\x7bz ".toList, .binding (.read "w" [])]⟩

theorem greeting_closing : ∃ t, parse (greeting.source ++ closing.source) = .ok t ∧
    t.bindings = greeting.bindings ++ closing.bindings ∧ t.contextIds = ["x", "y", "w"] ∧
    ∀ resolve, (t.evaluate resolve).text =
      (greeting.evaluate resolve).text ++ (closing.evaluate resolve).text := by
  have hg : parse greeting.source = .ok greeting := rfl
  have hc : parse closing.source = .ok closing := rfl
  have ha : Apart greeting.source.toList closing.source.toList := ⟨by decide, by decide⟩
  exact parse_append hg hc ha

end Composition

end BindingEngine.Template
