import BindingEngine.Proofs.Path.Binding
import BindingEngine.Proofs.Value.Frame

namespace BindingEngine

namespace Value

variable {s s' : Segment} {v u w : Value} {p q : Path}

def only (p : Path) : Value := overwrite (.bool true) null p

theorem only_cons (s : Segment) (p : Path) : only (s :: p) = null.put s (only p) := by
  cases s <;> rfl

theorem step?_put_null (h : (null.put s v).step? s' = some u) : s' = s ∧ u = v ∨ u = null := by
  cases s
  case key k =>
    cases s'
    case index => contradiction
    case key k' =>
      change Table.get? [(k, v)] k' = some u at h
      rw [Table.get?_cons] at h
      split at h
      case isTrue hk => exact .inl ⟨congrArg Segment.key hk, (Option.some.inj h).symm⟩
      case isFalse => contradiction
  case index i =>
    cases s'
    case key => contradiction
    case index j =>
      change (setItem [] i.toNat v)[j.toNat]? = some u at h
      by_cases hj : j.toNat = i.toNat
      case pos =>
        rw [hj, getElem?_setItem] at h
        exact .inl ⟨congrArg Segment.index (UInt64.toNat.inj hj), (Option.some.inj h).symm⟩
      case neg =>
        rw [getElem?_setItem_of_ne hj] at h
        split at h
        case isTrue => exact .inr (Option.some.inj h).symm
        case isFalse => contradiction

theorem get?_only (h : (only p).get? q = some w) : w = null ∨ ∃ r, p = q ++ r ∧ w = only r := by
  induction q generalizing p
  case nil => exact .inr ⟨p, rfl, (Option.some.inj h).symm⟩
  case cons s q hi =>
    obtain ⟨u, hu, hw⟩ := Option.bind_eq_some_iff.mp h
    cases p
    case nil => cases s <;> contradiction
    case cons s' p =>
      rw [only_cons] at hu
      rcases step?_put_null hu with ⟨rfl, rfl⟩ | rfl
      case inl =>
        rcases hi hw with rfl | ⟨r, rfl, rfl⟩
        case inl => exact .inl rfl
        case inr => exact .inr ⟨r, rfl, rfl⟩
      case inr =>
        cases q
        case nil => exact .inl (Option.some.inj hw).symm
        case cons s q => cases s <;> contradiction

theorem only_ne_string (p : Path) (s : String) : only p ≠ .string s := by
  rcases p with _ | ⟨_ | _, p⟩ <;> exact Value.noConfusion

theorem get?_only_self (p : Path) : (only p).get? p = some (.bool true) :=
  get?_overwrite (.bool true) null p

theorem get?_only_ne_string (p q : Path) (s : String) : (only p).get? q ≠ some (.string s) := by
  intro h
  rcases get?_only h with hn | ⟨r, _, hs⟩
  case inl => contradiction
  case inr => exact only_ne_string r s hs.symm

theorem eq_of_get?_only (h : (only p).get? q = some (.bool true)) : q = p := by
  rcases get?_only h with hn | ⟨r, rfl, hr⟩
  case inl => contradiction
  case inr =>
    rcases r with _ | ⟨_ | _, r⟩
    case nil => exact (List.append_nil q).symm
    all_goals contradiction

theorem eq_some_of_ofOption {x : Option Value} {b : Bool} (h : ofOption x = .bool b) :
    x = some (.bool b) := by
  cases x
  case none => contradiction
  case some v => exact congrArg some h

end Value

namespace Expr

open Lexemes (Scanned)

variable {start fuel room offset stop : Nat} {l : Lexeme} {ts ts' rest : Lexemes}
  {cs after : List Char} {e : Expr} {context : String}

theorem follow?_static (resolve : Resolver) (p : Path) (v : Value) :
    follow? resolve (p.map .static) v = v.get? p := by
  induction p generalizing v
  case nil => rfl
  case cons s p hi =>
    rw [List.map_cons, follow?, Value.get?]
    exact Option.bind_congr fun u _ => hi u

theorem evaluate_read {resolve : Resolver} {v : Value} (h : resolve context = some v)
    (steps : List Accessor) :
    (read context steps).evaluate resolve = .ofOption (follow? resolve steps v) := by
  rw [evaluate, h]

theorem of_parseBinding (h : parseBinding start cs = .ok (e, stop, after)) : ∃ ts ts',
    Scanned cs ts after ∧ parseNested start maxDepth maxDepth start ts = .ok (e, ts') := by
  obtain ⟨ts, hscan, ht⟩ := parseBinding_scans start cs _ h
  obtain ⟨l, ts', -, -, hn⟩ := parseTokens_closes start ts _ ht
  exact ⟨ts, .cons l ts', ⟨_, _, _, Nat.lt_succ_self _, hscan⟩, hn⟩

theorem of_parseNested_identifier (hl : l.token = .identifier context)
    (h : parseNested start (fuel + 1) (room + 1) offset (.cons l rest) = .ok (e, ts')) :
    ∃ steps ts, accessors start (parseNested start fuel room) rest.length rest = .ok (steps, ts) ∧
      (ts.Ends 0 → e = read context steps) := by
  cases ha : accessors start (parseNested start fuel room) rest.length rest
  case error error =>
    have hp : primary start (parseNested start fuel room) (.cons l rest) = .error error := by
      simp only [primary, hl, ha]
      rfl
    have hs : signed start (parseNested start fuel) room (.cons l rest) = .error error :=
      (signed_leads_primary (by simp [hl]) (by simp [hl]) (.of_eq trivial hp)).1 trivial
    exact absurd ((choice_of_error hs).symm.trans h) (by simp)
  case ok x =>
    obtain ⟨steps, ts⟩ := x
    refine ⟨steps, ts, rfl, fun he => ?_⟩
    exact (Prod.mk.inj (Except.ok.inj (h.symm.trans (parseNested_read hl ha he)))).1

end Expr

namespace Path

variable {context raw : String} {p : Path}

def answering (context : String) (v : Value) : Resolver := fun id =>
  if id = context then some v else none

theorem stringless_only (context : String) (p : Path) :
    Expr.Stringless (answering context (.only p)) := by
  intro id v q s hv
  unfold answering at hv
  split at hv
  case isTrue => exact Option.some.inj hv ▸ Value.get?_only_ne_string p q s
  case isFalse => contradiction

-- The binding reads its context along the path.
def Reads (context raw : String) (p : Path) : Prop :=
  ∃ t e, Template.parse (binding context raw) = .ok t ∧ t.parts = [.binding e] ∧
    ∀ resolve v, resolve context = some v → t.evaluate resolve = .ofOption (v.get? p)

theorem parse_binding (context raw : String) : Template.parse (binding context raw) =
    (⟨binding context raw, ·⟩) <$>
      (Expr.parseBinding 0 (context.toList ++ (continued raw.toList ++ ['}'])) >>= fun x =>
        (Template.Part.binding x.1 :: ·) <$> Template.readParts
          ((context.toList ++ (continued raw.toList ++ ['}'])).length + 1) x.2.1 x.2.2) := by
  rw [Template.parse, binding, String.toList_ofList]
  rfl

section

variable (hc : isIdentifier context.toList) (hw : context ∉ ["true", "false", "null"])

include hc hw

theorem reads_of_portable (h : Portable (continued raw.toList) p) : Reads context raw p := by
  have hw : String.ofList context.toList ∉ ["true", "false", "null"] := by
    rwa [String.ofList_toList]
  obtain ⟨stop, hb⟩ := Expr.parseBinding_of_portable hc hw h 0
  rw [String.ofList_toList] at hb
  refine ⟨⟨binding context raw, [.binding (.read context (p.map .static))]⟩, _, ?_, rfl,
    fun resolve v hv => ?_⟩
  case refine_1 =>
    rw [parse_binding, hb]
    rfl
  case refine_2 =>
    have he := Expr.evaluate_read hv (p.map .static)
    exact Expr.follow?_static resolve p v ▸ he

theorem read_of_parse {t : Template} {e : Expr} (hp : parse raw = .ok p)
    (ht : Template.parse (binding context raw) = .ok t) (hparts : t.parts = [.binding e]) :
    ∃ steps, e = .read context steps ∧
      ∀ resolve, Expr.Stringless resolve →
        Expr.Compares resolve (continued raw.toList) p steps := by
  rw [parse_binding, map_eq_ok_iff] at ht
  obtain ⟨parts, ht, rfl⟩ := ht
  obtain ⟨⟨e', stop, rest⟩, hb, ht⟩ := bind_eq_ok_iff.mp ht
  obtain ⟨more, -, rfl⟩ := map_eq_ok_iff.mp ht
  obtain rfl := Template.Part.binding.inj (List.cons.inj hparts).1
  obtain ⟨ts, ts', hscan, hn⟩ := Expr.of_parseBinding hb
  have hs := (parse_eq_ok_iff.mp hp).continued
  obtain ⟨l, ts, rfl, hl, hscan⟩ := Expr.scanned_word hc hs.head_close hscan
  rw [String.ofList_toList] at hl
  have hl : l.token = .identifier context := by
    rw [hl]
    simp_all [Token.word]
  obtain ⟨steps, ts, ha, he⟩ := Expr.of_parseNested_identifier hl hn
  have hcompare (resolve : Resolver) (hr : Expr.Stringless resolve) :=
    Expr.accessors_compare hr hs hscan (Nat.le_refl _) ha
  have hnone : Expr.Stringless fun _ => none := by
    rintro _ _ _ _ ⟨⟩
  exact ⟨steps, he (hcompare _ hnone).1, fun resolve hr => (hcompare resolve hr).2⟩

theorem portable_of_reads (hp : parse raw = .ok p) (hi : ∀ i, .index i ∈ p → i.toNat < Nat.pow 2 63)
    (h : Reads context raw p) : Portable (continued raw.toList) p := by
  obtain ⟨t, e, ht, hparts, heval⟩ := h
  obtain ⟨steps, rfl, hcompare⟩ := read_of_parse hc hw hp ht hparts
  have hr := stringless_only context p
  have hv : answering context (.only p) context = some (.only p) := if_pos rfl
  have he : t.evaluate (answering context (.only p)) =
      .ofOption (Expr.follow? (answering context (.only p)) steps (.only p)) := by
    rw [Template.evaluate, hparts]
    exact Expr.evaluate_read hv steps
  have hl : t.evaluate (answering context (.only p)) = .bool true := by
    rw [heval _ _ hv, Value.get?_only_self]
    rfl
  obtain ⟨q, hq, hg⟩ := Expr.follow?_eq_some (Value.eq_some_of_ofOption (he.symm.trans hl))
  obtain rfl := Value.eq_of_get?_only hg
  exact (hcompare _ hr).portable hq hi

end

-- A path means the same in a binding exactly if it is written in a portable way.
theorem reads_iff_portable (hp : parse raw = .ok p) (hi : ∀ i, .index i ∈ p → i.toNat < Nat.pow 2 63)
    (hc : isIdentifier context.toList) (hw : context ∉ ["true", "false", "null"]) :
    Reads context raw p ↔ Portable (continued raw.toList) p :=
  ⟨portable_of_reads hc hw hp hi, reads_of_portable hc hw⟩

theorem lines_read : parse "lines[ 007 ]['it\\'s']" = .ok [.key "lines", .index 7, .key "it's"] ∧
    Reads "order" "lines[ 007 ]['it\\'s']" [.key "lines", .index 7, .key "it's"] := by
  have hp : parse "lines[ 007 ]['it\\'s']" = .ok [.key "lines", .index 7, .key "it's"] := rfl
  have hi : ∀ i, Segment.index i ∈ ([.key "lines", .index 7, .key "it's"] : Path) →
      i.toNat < Nat.pow 2 63 := by
    intro i hm
    obtain rfl : i = 7 := by simpa using hm
    decide
  have hn : isIdentifier "lines".toList := rfl
  have hb : ∀ c ∈ [' '], Text.isBlank c := List.all_eq_true.mp rfl
  have hd : ∀ c ∈ "007".toList, c.isDigit := List.all_eq_true.mp rfl
  have hk : Portable "['it\\'s']".toList [.key "it's"] := by
    have hk : isPlain "it\\'s".toList := rfl
    exact .key (List.forall_mem_nil _) (List.forall_mem_nil _) hk .done
  have h : Portable (continued "lines[ 007 ]['it\\'s']".toList)
      [.key "lines", .index 7, .key "it's"] :=
    .field hn (.index hb hb (by decide) hd (by decide) hk)
  exact ⟨hp, (reads_iff_portable hp hi rfl (by decide)).mpr h⟩

-- A path and a binding that are written in the same way lead to different places, without notice.
theorem other_place_read :
    parse "['a\\\\b']" = .ok [.key "a\\\\b"] ∧
    (Value.map [("a\\\\b", .int 1), ("a\\b", .int 2)]).get? [.key "a\\\\b"] = some (.int 1) ∧
    ∃ t, Template.parse (binding "c" "['a\\\\b']") = .ok t ∧
      t.evaluate (answering "c" (.map [("a\\\\b", .int 1), ("a\\b", .int 2)])) = .int 2 :=
  ⟨rfl, rfl, ⟨_, _⟩, rfl, rfl⟩

end Path

end BindingEngine
