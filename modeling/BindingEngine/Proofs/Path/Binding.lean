import BindingEngine.Proofs.Path.Portable
import BindingEngine.Proofs.Path.RoundTrip

namespace BindingEngine

namespace Token

-- The text between quotes that is read as a string.
inductive Body : List Char → List Char → Prop
  | nil : Body [] []
  | escape {raw text : List Char} (c : Char) : Body raw text →
    Body ('\\' :: c :: raw) (unescaped c ++ text)
  | char {raw text : List Char} {c : Char} : c ≠ '\'' → c ≠ '\\' → Body raw text →
    Body (c :: raw) (c :: text)

variable {raw text : List Char} {c : Char}

theorem body_of_stringBody (h : stringBody? (raw ++ ['\'']) = some (text, raw.length + 1)) :
    Body raw text := by
  fun_induction Path.isPlain raw generalizing text
  case case1 =>
    obtain ⟨rfl, -⟩ := Prod.mk.inj (Option.some.inj h)
    exact .nil
  case case2 c raw hi =>
    rw [List.cons_append, List.cons_append, stringBody?_escape] at h
    obtain ⟨ds, k, ht, he⟩ := exists_of_map h
    obtain ⟨rfl, hk⟩ := Prod.mk.inj he
    obtain rfl : k = raw.length + 1 := Nat.add_right_cancel hk
    exact .escape c (hi ht)
  case case3 c raw hb hi =>
    by_cases hq : c = '\''
    case pos =>
      subst hq
      obtain ⟨-, hk⟩ := Prod.mk.inj (Option.some.inj h)
      exact absurd hk (by simp)
    case neg =>
      have hb : c ≠ '\\' := by
        rintro rfl
        cases raw
        case nil => contradiction
        case cons d raw => exact hb d raw rfl rfl
      rw [List.cons_append, stringBody?_cons hq hb] at h
      obtain ⟨ds, k, ht, he⟩ := exists_of_map h
      obtain ⟨rfl, hk⟩ := Prod.mk.inj he
      obtain rfl : k = raw.length + 1 := Nat.add_right_cancel hk
      exact .char hq hb (hi ht)

end Token

namespace Path

section Plain

open Token (Body unescaped unescaped_of_ne)

variable {key text : List Char}

theorem length_unescapeQuotes_le (c : Char) (key : List Char) :
    (unescapeQuotes key).length ≤ (unescapeQuotes (c :: key)).length := by
  by_cases hb : c = '\\'
  case neg => exact unescapeQuotes_cons hb key ▸ Nat.le_succ _
  case pos =>
    subst hb
    cases key
    case nil => exact Nat.zero_le _
    case cons d key =>
      by_cases hq : d = '\''
      case pos =>
        subst hq
        exact Nat.le_of_eq (congrArg List.length (unescapeQuotes_cons (by decide) key))
      case neg => exact unescapeQuotes_backslash hq key ▸ Nat.le_succ _

theorem count_unescapeQuotes (key : List Char) :
    (unescapeQuotes key).count '\'' = key.count '\'' := by
  fun_induction unescapeQuotes key
  case case1 key hi => rw [List.count_cons_self, hi]; simp
  case case2 c key _ hi => rw [List.count_cons, List.count_cons, hi]
  case case3 => rfl

theorem length_le_of_body (h : Body key text) : text.length ≤ (unescapeQuotes key).length := by
  induction h
  case nil => exact Nat.le_refl _
  case char hb _ hi =>
    rw [unescapeQuotes_cons hb]
    exact Nat.succ_le_succ hi
  case escape key text c _ hi =>
    by_cases hq : c = '\''
    case pos =>
      subst hq
      exact Nat.succ_le_succ hi
    case neg =>
      rw [unescapeQuotes_backslash hq, List.length_cons, List.length_append]
      by_cases hb : c = '\\'
      case pos =>
        subst hb
        have hl := length_unescapeQuotes_le '\\' key
        have hu : (unescaped '\\').length = 1 := rfl
        omega
      case neg =>
        have hu : (unescaped c).length ≤ 2 := by
          unfold unescaped
          split <;> simp
        rw [unescapeQuotes_cons hb, List.length_cons]
        omega

-- A key that both readers take for the same is plain. Were there a backslash behind a backslash, the
-- string would be shorter.
theorem isPlain_of_body (h : Body key text) (he : text = unescapeQuotes key) : isPlain key := by
  induction h
  case nil => rfl
  case char key text c hq hb _ hi =>
    rw [unescapeQuotes_cons hb] at he
    have hp : isPlain (c :: key) = (c ≠ '\'' && c ≠ '\\' && isPlain key) := by
      rw [isPlain]
      exact fun _ _ he => absurd he hb
    simp [hp, hq, hb, hi (List.cons.inj he).2]
  case escape key text c hk hi =>
    by_cases hq : c = '\''
    case pos =>
      subst hq
      simp [isPlain, hi (List.cons.inj he).2]
    case neg =>
      rw [unescapeQuotes_backslash hq] at he
      have hb : c ≠ '\\' := by
        rintro rfl
        have ht : text = unescapeQuotes ('\\' :: key) := (List.cons.inj he).2
        have hl := length_le_of_body hk
        have hd : unescapeQuotes ('\\' :: key) = '\\' :: unescapeQuotes key := by
          cases hk
          case nil => rfl
          case escape => exact unescapeQuotes_backslash (by decide) _
          case char hq _ _ => exact unescapeQuotes_backslash hq _
        rw [ht, hd] at hl
        exact Nat.not_succ_le_self _ hl
      have hn : c ≠ 'n' := by
        rintro rfl
        exact absurd (List.cons.inj he).1 (by decide)
      rw [unescaped_of_ne hq hb hn, unescapeQuotes_cons hb] at he
      simp [isPlain, hb, hn, hi (List.cons.inj (List.cons.inj he).2).2]

end Plain

section Groups

variable {place : Place} {before cs inner rest : List Char} {s : Segment} {i : UInt64} {p q : Path}

theorem Spells.head_close (h : Spells .behind cs p) :
    ∀ c ∈ (cs ++ ['}']).head?, ¬isIdentifierPart c := by
  cases cs
  case nil =>
    have hb : ¬isIdentifierPart '}' := by decide
    simpa using hb
  case cons c cs => exact fun d hd hp => h.head d hd (isKeyPart_of_part hp)

theorem Spells.continued (h : Spells .start cs p) : Spells .behind (continued cs) p := by
  cases h
  case done => exact .done _
  case group hi hs h =>
    rw [Path.continued, if_neg (by decide)]
    exact .group _ hi hs h
  case name name cs p hn h =>
    cases name
    case nil => contradiction
    case cons c name =>
      have hc : isIdentifierStart c := (Bool.and_eq_true _ _ ▸ hn : _ ∧ _).1
      rw [List.cons_append, Path.continued, if_pos hc]
      exact .dot (List.cons_ne_nil _ _) (.name hn h)

theorem Spells.split (h : Spells place cs p) (he : cs ++ ['}'] = before ++ ']' :: rest) :
    ∃ ds q, rest = ds ++ ['}'] ∧ Spells .behind ds q ∧ q.length < p.length := by
  induction h generalizing before
  case done =>
    have hm : ']' ∈ [] ++ ['}'] := he ▸ by simp
    simp at hm
  case group inner cs s p place hi hs h ih =>
    have hn : ']' ∉ '[' :: inner := by simpa using hi
    have he : ('[' :: inner) ++ ']' :: (cs ++ ['}']) = before ++ ']' :: rest := by simpa using he
    rcases append_cons_cases hn he with ⟨-, rfl⟩ | ⟨zs, -, hz⟩
    case inl => exact ⟨cs, p, rfl, h, Nat.lt_succ_self _⟩
    case inr =>
      obtain ⟨ds, q, hr, hq, hl⟩ := ih hz
      exact ⟨ds, q, hr, hq, Nat.lt_succ_of_lt hl⟩
  case name name cs p hn h ih =>
    have hb : ']' ∉ name := fun hm => absurd (isIdentifierPart_of_mem hn _ hm) (by decide)
    rw [List.append_assoc] at he
    obtain ⟨zs, -, hz⟩ := append_of_not_mem hb he
    obtain ⟨ds, q, hr, hq, hl⟩ := ih hz
    exact ⟨ds, q, hr, hq, Nat.lt_succ_of_lt hl⟩
  case dot cs p hc h ih =>
    have hn : ']' ∉ ['.'] := by simp
    obtain ⟨zs, -, hz⟩ := append_of_not_mem hn he
    exact ih hz

end Groups

end Path

namespace Expr

open Lexemes (Scanned SpelledIn prepend)
open BindingEngine.Path (Spells Portable)

variable {start opened fuel room offset n : Nat} {nested : Nat → Nat → Parser} {l m r : Lexeme}
  {ts ts' rest : Lexemes} {e : Expr} {error : ParseError} {steps : List Accessor} {step : Accessor}

section Inversion

theorem layer_of_error {k : Nat} (hk : k ≤ 6) (h : signed start nested room ts = .error error) :
    layer start nested (7 - k) room ts = .error error := by
  induction k
  case zero => exact h
  case succ k hi =>
    have hl : 7 - (k + 1) + 1 = 7 - k := by omega
    rw [layer_eq _ _ (by omega) (by omega), hl, chained, hi (by omega)]
    rfl

theorem choice_of_error (h : signed start nested room ts = .error error) :
    choice start nested room ts = .error error := by
  have hd : disjunction start nested room ts = .error error := layer_of_error (Nat.le_refl 6) h
  rw [choice, hd]
  rfl

theorem exists_room {x : Expr × Lexemes} (h : parseNested start fuel room offset ts = .ok x) :
    ∃ fuel' room', fuel = fuel' + 1 ∧ room = room' + 1 := by
  cases fuel <;> cases room <;> first | contradiction | exact ⟨_, _, rfl, rfl⟩

theorem parseNested_plus (hl : l.token = .plus) {x : Expr × Lexemes} :
    parseNested start fuel room offset (.cons l rest) ≠ .ok x := by
  intro h
  obtain ⟨fuel, room, rfl, rfl⟩ := exists_room h
  have hs : signed start (parseNested start fuel) room (.cons l rest) =
      .error (.unexpectedToken l.token l.start) :=
    (signed_leads_primary (by simp [hl]) (by simp [hl]) (.of_eq trivial (by simp [primary, hl]))).1
      trivial
  exact absurd ((choice_of_error hs).symm.trans h) (by simp)

theorem parseNested_string {s : String} (hl : l.token = .string s) (hr : r.token = .rightBracket)
    (h : parseNested start fuel room offset (.cons l (.cons r ts)) = .ok (e, .cons r ts)) :
    e = literal (.string s) := by
  obtain ⟨fuel, room, rfl, rfl⟩ := exists_room h
  have hs : parseNested start (fuel + 1) (room + 1) offset (.cons l (.cons r ts)) =
      .ok (literal (.string s), .cons r ts) :=
    parseNested_literal (by rw [hl, literalTokens]) trivial hr
  exact (Prod.mk.inj (Except.ok.inj (h.symm.trans hs))).1

theorem of_close {token : Token} {inner : Parser}
    (h : close start opened token inner ts = .ok (e, ts')) :
    ∃ r, inner ts = .ok (e, .cons r ts') ∧ r.token = token := by
  obtain ⟨⟨e', ts⟩, hi, h⟩ := bind_eq_ok_iff.mp h
  cases ts
  case cons r ts =>
    simp only at h
    split at h
    case isTrue hr =>
      obtain ⟨rfl, rfl⟩ := Prod.mk.inj (Except.ok.inj h)
      exact ⟨r, hi, hr⟩
    case isFalse => contradiction
  all_goals contradiction

theorem of_accessors_bracket {nested : Nat → Parser} (hl : l.token = .leftBracket)
    (h : accessors start nested (n + 1) (.cons l rest) = .ok (steps, ts')) :
    ∃ offset e r ts step more, nested offset rest = .ok (e, .cons r ts) ∧ r.token = .rightBracket ∧
      accessor e l.start = .ok step ∧ accessors start nested n ts = .ok (more, ts') ∧
      steps = step :: more := by
  obtain ⟨_, opened, _⟩ := l
  cases hl
  unfold accessors at h
  split at h
  case h_7 he =>
    cases he
    obtain ⟨⟨e, ts⟩, hc, h⟩ := bind_eq_ok_iff.mp h
    obtain ⟨step, hs, h⟩ := bind_eq_ok_iff.mp h
    obtain ⟨⟨more, ts''⟩, hm, h⟩ := bind_eq_ok_iff.mp h
    obtain ⟨rfl, rfl⟩ := Prod.mk.inj (Except.ok.inj h)
    obtain ⟨r, hn, hr⟩ := of_close hc
    exact ⟨_, e, r, ts, step, more, hn, hr, hs, hm, rfl⟩
  case h_8 hn => exact absurd rfl (hn _ _ _)
  case h_4 he => cases he
  all_goals contradiction

theorem of_accessors_dot {nested : Nat → Parser} (hl : l.token = .dot)
    (h : accessors start nested (n + 1) (.cons l (.cons m rest)) = .ok (steps, ts')) :
    ∃ k more, fieldName? m.token = some k ∧ accessors start nested n rest = .ok (more, ts') ∧
      steps = .static (.key k) :: more := by
  obtain ⟨_, _, _⟩ := l
  cases hl
  simp only [accessors] at h
  split at h
  case h_1 => contradiction
  case h_2 k hk =>
    obtain ⟨⟨more, ts''⟩, hm, h⟩ := bind_eq_ok_iff.mp h
    obtain ⟨rfl, rfl⟩ := Prod.mk.inj (Except.ok.inj h)
    exact ⟨k, more, hk, hm, rfl⟩

end Inversion

section Readers

variable {resolve : Resolver} {before key inner behind cs after : List Char} {ls : List Lexeme}
  {p : Path} {s : Segment}

theorem evaluate_of_accessor {k : String} (h : accessor e opened = .ok step)
    (hs : segment? resolve step = some (.key k)) : e.evaluate resolve = .string k := by
  unfold accessor at h
  split at h
  case h_1 i =>
    split at h
    case isTrue => contradiction
    case isFalse =>
      obtain rfl := Except.ok.inj h
      cases hs
  case h_2 =>
    obtain rfl := Except.ok.inj h
    cases hs
    rfl
  case h_3 => contradiction
  case h_4 =>
    obtain rfl := Except.ok.inj h
    rw [segment?] at hs
    cases hv : e.evaluate resolve
    case string s =>
      rw [hv] at hs
      cases hs
      rfl
    case int i =>
      simp [hv, Value.segment?] at hs
    all_goals
      rw [hv] at hs
      contradiction

variable (hr : Stringless resolve)

include hr

-- A key that is the value in the brackets stands there as a single string, as there are no other
-- quotes for those of the key.
theorem isPlain_of_accessor (hb : ∀ c ∈ before, Text.isBlank c) (ha : ∀ c ∈ after, Text.isBlank c)
    (hls : SpelledIn ls (before ++ '\'' :: (key ++ '\'' :: after)))
    (hq : e.quotes ≤ Lexemes.quotes ls)
    (he : ∀ l s, ls = [l] → l.token = .string s → e = literal (.string s))
    (hv : e.evaluate resolve = .string (String.ofList (Path.unescapeQuotes key))) :
    Path.isPlain key := by
  have hk := count_evaluate hr e hv
  rw [String.toList_ofList, Path.count_unescapeQuotes] at hk
  obtain ⟨l, s, rfl, hl, hbody⟩ := hls.of_quoted hb ha (Nat.le_trans hk hq)
  obtain rfl := he l s rfl hl
  obtain rfl := Value.string.inj hv
  have hs := Token.body_of_stringBody (hbody [])
  exact Path.isPlain_of_body hs (String.toList_ofList)

theorem portable_group (hg : Path.group? (Text.trim inner) = some s)
    (hi : ∀ i, s = .index i → i.toNat < Nat.pow 2 63)
    (ht : Scanned (inner ++ behind) (prepend ls (.cons r ts)) after) (hls : SpelledIn ls inner)
    (he : parseNested start fuel room offset (prepend ls (.cons r ts)) = .ok (e, .cons r ts))
    (hq : e.quotes ≤ Lexemes.quotes ls) (hrb : r.token = .rightBracket)
    (ha : accessor e opened = .ok step) (hs : segment? resolve step = some s) (hp : Portable cs p) :
    Portable ('[' :: (inner ++ ']' :: cs)) (s :: p) := by
  obtain ⟨before, after', hb, hb', hinner⟩ := Text.exists_trim inner
  rcases Path.group?_cases hg with ⟨key, htrim, rfl⟩ | ⟨digits, hne, hd, hv, rfl, htrim | htrim⟩
  case inl =>
    rw [htrim, List.cons_append, List.append_assoc, List.singleton_append] at hinner
    subst hinner
    have hk := isPlain_of_accessor hr hb hb' hls hq (fun l s hl hs => ?_) (evaluate_of_accessor ha hs)
    case refine_1 =>
      subst hl
      exact parseNested_string hs hrb he
    case refine_2 => simpa using Portable.key hb hb' hk hp
  case inr.inl =>
    have hi : Path.decimalValue digits < Nat.pow 2 63 := by
      have hi := hi _ rfl
      rwa [UInt64.toNat_ofNat_of_lt' hv] at hi
    rw [htrim] at hinner
    subst hinner
    simpa using Portable.index hb hb' hne hd hi hp
  case inr.inr =>
    -- an expression does not begin with a plus
    rw [hinner, htrim] at ht
    simp only [List.append_assoc, List.cons_append] at ht
    obtain ⟨l, ts', hl, hplus, -⟩ := Scanned.symbol hb (by decide) ht (fun _ => rfl) (by simp)
    rw [hl] at he
    exact absurd he (parseNested_plus hplus)

omit hr

-- How the accessors in a binding compare with the path that their text spells. There are no more of them
-- than segments, and if they stand for the segments the text is portable.
structure Compares (resolve : Resolver) (cs : List Char) (p : Path) (steps : List Accessor) : Prop where
  length_le : steps.length ≤ p.length
  portable : List.Forall₂ (fun step s => segment? resolve step = some s) steps p →
    (∀ i, .index i ∈ p → i.toNat < Nat.pow 2 63) → Portable cs p

namespace Compares

theorem nil : Compares resolve [] [] [] :=
  ⟨Nat.le_refl _, fun _ _ => .done⟩

theorem cons {text : List Char} (h : Compares resolve cs p steps)
    (hp : segment? resolve step = some s → (∀ i, s = .index i → i.toNat < Nat.pow 2 63) →
      Portable cs p → Portable text (s :: p)) : Compares resolve text (s :: p) (step :: steps) where
  length_le := Nat.succ_le_succ h.length_le
  portable hs hi := by
    cases hs
    case cons hs hps =>
      exact hp hs (fun i he => hi i (he ▸ List.mem_cons_self))
        (h.portable hps fun i hm => hi i (List.mem_cons_of_mem _ hm))

theorem of_lt (h : steps.length < p.length) : Compares resolve cs p steps :=
  ⟨Nat.le_of_lt h, fun hs _ => absurd hs.length_eq (Nat.ne_of_lt h)⟩

end Compares

include hr

-- By induction on the number of tokens: each accessor is read from a group or name of the path, or
-- from more than that.
theorem accessors_compare (h : Spells .behind cs p) (ht : Scanned (cs ++ ['}']) ts after)
    (hn : ts.length ≤ n)
    (ha : accessors start (parseNested start fuel room) n ts = .ok (steps, ts')) :
    ts'.Ends 0 ∧ Compares resolve cs p steps := by
  have hnil : ∀ c ∈ ([] : List Char), Text.isBlank c := List.forall_mem_nil _
  induction n using Nat.strong_induction_on generalizing cs p ts steps
  case h n ih =>
  cases h
  case done =>
    obtain ⟨l, ts, rfl, hl, -⟩ := ht.close
    have he := ends_of_closed (l := l) (by rw [hl]; rfl) ts
    rw [accessors_of_ends (he.mono (Nat.zero_le 7))] at ha
    cases ha
    exact ⟨he, .nil⟩
  case dot cs hne h =>
    rw [List.cons_append] at ht
    obtain ⟨l, ts, rfl, hl, hts⟩ := Scanned.symbol hnil (by decide) ht (fun _ => rfl) (by simp)
    obtain ⟨n, rfl⟩ := Nat.exists_eq_succ_of_ne_zero (Nat.ne_zero_of_lt hn)
    cases h
    case done => exact absurd rfl hne
    case group =>
      rw [List.cons_append] at hts
      obtain ⟨m, ts, rfl, hm, -⟩ := Scanned.symbol hnil (by decide) hts (fun _ => rfl) (by simp)
      obtain ⟨k, _, hk, _⟩ := of_accessors_dot hl ha
      simp [hm, fieldName?] at hk
    case name name cs p hname h =>
      rw [List.append_assoc] at hts
      obtain ⟨m, ts, rfl, hm, hts⟩ := scanned_word hname h.head_close hts
      obtain ⟨k, more, _, hmore, rfl⟩ := of_accessors_dot hl ha
      have hlen := Nat.le_of_succ_le (Nat.le_of_succ_le_succ hn)
      obtain ⟨hend, hc⟩ := ih n (Nat.lt_succ_self n) h hts hlen hmore
      exact ⟨hend, hc.cons fun _ _ hp => .field hname hp⟩
  case group inner cs s p hb hg h =>
    rw [List.cons_append] at ht
    obtain ⟨l, ts, rfl, hl, hts⟩ := Scanned.symbol hnil (by decide) ht (fun _ => rfl) (by simp)
    obtain ⟨n, rfl⟩ := Nat.exists_eq_succ_of_ne_zero (Nat.ne_zero_of_lt hn)
    obtain ⟨offset, e, r, rest, step, more, he, hrb, hstep, hmore, rfl⟩ := of_accessors_bracket hl ha
    obtain ⟨ls, rfl, hq⟩ := parseNested_consumes fuel room offset ts _ he
    obtain ⟨before, rest', hbefore, hls, hrest⟩ := hts.split hrb
    have hlen : rest.length ≤ n := by
      simp only [Lexemes.length, Lexemes.length_prepend] at hn
      omega
    have hinner := hbefore
    rw [List.append_assoc] at hinner
    rcases append_cons_cases hb hinner with ⟨rfl, rfl⟩ | ⟨zs, -, hz⟩
    case inl =>
      obtain ⟨hend, hc⟩ := ih n (Nat.lt_succ_self n) h hrest hlen hmore
      rw [hbefore] at hts
      exact ⟨hend, hc.cons fun hs hi => portable_group hr hg hi hts hls he hq hrb hstep hs⟩
    case inr =>
      -- the binding goes on in its brackets where a group of the path is closed
      obtain ⟨ds, q, rfl, hds, hlt⟩ := h.split hz
      obtain ⟨hend, hc⟩ := ih n (Nat.lt_succ_self n) hds hrest hlen hmore
      exact ⟨hend, .of_lt (Nat.succ_lt_succ (Nat.lt_of_le_of_lt hc.length_le hlt))⟩

end Readers

end Expr

end BindingEngine
