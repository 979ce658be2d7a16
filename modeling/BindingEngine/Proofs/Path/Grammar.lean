import BindingEngine.Proofs.Document.Reading
import BindingEngine.Proofs.Expr.Lexing

namespace BindingEngine.Path

theorem isKeyPart_of_part {c : Char} (h : isIdentifierPart c) : isKeyPart c := by
  have hd : c ≠ '.' := by
    rintro rfl
    exact absurd h (by decide)
  have hb : c ≠ '[' := by
    rintro rfl
    exact absurd h (by decide)
  simp [isKeyPart, hd, hb]

theorem isIdentifierPart_of_mem {key : List Char} (h : isIdentifier key) :
    ∀ c ∈ key, isIdentifierPart c := by
  cases key
  case nil => simp
  case cons c cs =>
    simp only [isIdentifier, Bool.and_eq_true, List.all_eq_true] at h
    exact List.forall_mem_cons.mpr ⟨Token.isIdentifierPart_of_start h.1, h.2⟩

theorem length_pos_of_isIdentifier {name : List Char} (h : isIdentifier name) : 0 < name.length := by
  cases name
  case nil => contradiction
  case cons => exact Nat.zero_lt_succ _

-- The texts of a path from a place in it on: names behind dots and groups in brackets, each of which
-- ends at the next closing bracket. There is no dot before a name at the beginning.
inductive Spells : Place → List Char → Path → Prop
  | done (place : Place) : Spells place [] []
  | group {inner cs : List Char} {s : Segment} {p : Path} (place : Place) : ']' ∉ inner →
    group? (Text.trim inner) = some s → Spells .behind cs p →
    Spells place ('[' :: (inner ++ ']' :: cs)) (s :: p)
  | name {name cs : List Char} {p : Path} : isIdentifier name → Spells .behind cs p →
    Spells .start (name ++ cs) (.key (String.ofList name) :: p)
  | dot {cs : List Char} {p : Path} : cs ≠ [] → Spells .start cs p → Spells .behind ('.' :: cs) p

variable {fuel offset : Nat} {place : Place} {cs inner name : List Char} {s : Segment} {p : Path}

theorem Spells.head (h : Spells .behind cs p) : ∀ c ∈ cs.head?, ¬isKeyPart c := by
  cases h
  case done => simp
  case group => simp [isKeyPart]
  case dot => simp [isKeyPart]

theorem takeWhile_group (hi : ']' ∉ inner) : (inner ++ ']' :: cs).takeWhile (· ≠ ']') = inner :=
  takeWhile_append_of_head (fun _ hc => decide_eq_true fun he => hi (he ▸ hc)) (by simp)

theorem drop_group : (inner ++ ']' :: cs).drop (inner.length + 1) = cs := by
  rw [← List.drop_drop, List.drop_left]
  rfl

theorem segments_group (hi : ']' ∉ inner) (hs : group? (Text.trim inner) = some s) :
    segments (fuel + 1) offset place ('[' :: (inner ++ ']' :: cs)) =
      (s :: ·) <$> segments fuel (offset + byteLength inner + 2) .behind cs := by
  have hm : ']' ∈ inner ++ ']' :: cs := by simp
  simp only [segments, hm, takeWhile_group hi, hs, drop_group, if_true]

theorem segments_name (hn : isIdentifier name) (hc : ∀ c ∈ cs.head?, ¬isKeyPart c) :
    segments (fuel + 1) offset .start (name ++ cs) = (.key (String.ofList name) :: ·) <$>
      segments fuel (offset + byteLength name) .behind cs := by
  have hm : ∀ c ∈ name, isKeyPart c := fun c hc => isKeyPart_of_part (isIdentifierPart_of_mem hn c hc)
  have ht : (name ++ cs).takeWhile isKeyPart = name := takeWhile_append_of_head hm hc
  have hd : (name ++ cs).dropWhile isKeyPart = cs := dropWhile_append_of_head hm hc
  cases name
  case nil => simp [isIdentifier] at hn
  case cons c name =>
    have hb : c ≠ '[' := by
      rintro rfl
      exact absurd (hm '[' List.mem_cons_self) (by decide)
    rw [List.cons_append] at ht hd ⊢
    rw [segments]
    case x_4 => exact List.cons_ne_nil _ _
    case x_5 => exact fun _ he => hb (List.cons.inj he).1
    simp only [ht, hd, hn, if_true]

theorem segments_dot (h : cs ≠ []) :
    segments (fuel + 1) offset .behind ('.' :: cs) = segments fuel (offset + 1) .start cs := by
  simp [segments, h]

-- Every round of the reader takes a character at least, so that the fuel is enough.
theorem Spells.segments (h : Spells place cs p) (hf : cs.length ≤ fuel) :
    segments fuel offset place cs = .ok p := by
  induction h generalizing fuel offset
  case done => cases fuel <;> rfl
  case group inner cs s p place hi hs _ ih =>
    simp only [List.length_cons, List.length_append] at hf
    obtain ⟨fuel, rfl⟩ : ∃ n, fuel = n + 1 := ⟨fuel - 1, by omega⟩
    rw [segments_group hi hs, ih (by omega)]
    rfl
  case name name cs p hn h ih =>
    have hl := length_pos_of_isIdentifier hn
    rw [List.length_append] at hf
    obtain ⟨fuel, rfl⟩ : ∃ n, fuel = n + 1 := ⟨fuel - 1, by omega⟩
    rw [segments_name hn h.head, ih (by omega)]
    rfl
  case dot cs p hc _ ih =>
    rw [List.length_cons] at hf
    obtain ⟨fuel, rfl⟩ : ∃ n, fuel = n + 1 := ⟨fuel - 1, by omega⟩
    rw [segments_dot hc, ih (by omega)]

theorem spells_of_segments (h : Path.segments fuel offset place cs = .ok p) (hf : cs.length ≤ fuel) :
    Spells place cs p := by
  fun_induction Path.segments fuel offset place cs generalizing p
  case case1 =>
    obtain rfl := Except.ok.inj h
    exact .done _
  case case2 hn => exact absurd (List.length_eq_zero_iff.mp (Nat.le_zero.mp hf)) hn
  case case4 fuel offset place cs hb inner s hs ih =>
    obtain ⟨p, hp, rfl⟩ := map_eq_ok_iff.mp h
    obtain ⟨inner', rest, rfl, hn⟩ := List.eq_append_cons_of_mem hb
    have hi : inner = inner' := takeWhile_group hn
    rw [hi] at hs hp ih
    rw [drop_group] at hp ih
    simp only [List.length_cons, List.length_append] at hf
    exact .group place hn hs (ih hp (by omega))
  case case6 fuel offset cs hc hb name hn ih =>
    obtain ⟨p, hp, rfl⟩ := map_eq_ok_iff.mp h
    have he : cs = name ++ cs.dropWhile isKeyPart := List.takeWhile_append_dropWhile.symm
    have hl := length_pos_of_isIdentifier hn
    rw [he, List.length_append] at hf
    rw [he]
    exact .name hn (ih hp (by omega))
  case case8 fuel offset c cs _ hc ih =>
    simp only [Bool.and_eq_true, decide_eq_true_eq, Bool.not_eq_true', List.isEmpty_eq_false_iff] at hc
    obtain ⟨rfl, hn⟩ := hc
    exact .dot hn (ih h (Nat.le_of_succ_le_succ hf))
  case case3 | case5 | case7 | case9 => contradiction

theorem parse_eq_ok_iff {raw : String} : parse raw = .ok p ↔ Spells .start raw.toList p := by
  rw [parse, mapError_eq_ok_iff]
  exact ⟨fun h => spells_of_segments h (Nat.le_refl _), fun h => h.segments (Nat.le_refl _)⟩

end BindingEngine.Path
