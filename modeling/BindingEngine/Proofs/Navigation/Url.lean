import Mathlib.Data.List.DropRight
import Mathlib.Data.List.Infix
import BindingEngine.Navigation.Route
import BindingEngine.Proofs.Expr.Lexing

open scoped List

namespace BindingEngine.Url

def isSchemePart (c : Char) : Bool := c.isAlphanum || c = '+' || c = '-' || c = '.'

def isScheme : List Char → Bool
  | [] => false
  | c :: cs => c.isAlpha && cs.all isSchemePart

def Schemed (url : List Char) : Prop :=
  ∃ scheme rest, isScheme scheme ∧ url = scheme ++ ':' :: '/' :: '/' :: rest

def HasMark (url : List Char) : Prop := [':', '/', '/'] <:+: url

-- Behind the first colon there is more than slashes.
def HasHost (base : List Char) : Prop :=
  ∃ scheme rest, ':' ∉ scheme ∧ base = scheme ++ ':' :: rest ∧ ∃ c ∈ rest, c ≠ '/'

-- The base without its trailing slashes, a slash, and the URL without its leading ones.
def joined (base url : List Char) : List Char :=
  base.rdropWhile (· = '/') ++ '/' :: url.dropWhile (· = '/')

variable {base url scheme xs ys : List Char} {c d : Char}

section Marks

theorem hasScheme_iff : hasScheme url ↔ HasMark url := by
  unfold HasMark
  fun_induction hasScheme url
  case case1 rest => exact iff_of_true rfl ⟨[], rest, rfl⟩
  case case3 => simp
  case case2 c cs hn hi =>
    rw [hi, List.infix_cons_iff]
    refine (or_iff_right fun hp => ?_).symm
    obtain ⟨rest, hp⟩ := hp
    exact hn rest (List.cons.inj hp).1.symm (List.cons.inj hp).2.symm

theorem colon_not_mem (h : isScheme scheme) : ':' ∉ scheme := by
  cases scheme
  case nil => contradiction
  case cons c cs =>
    obtain ⟨hc, hcs⟩ := (Bool.and_eq_true _ _).mp h
    rw [List.all_eq_true] at hcs
    intro hm
    rcases List.mem_cons.mp hm with rfl | hm
    case inl => exact absurd hc (by decide)
    case inr => exact absurd (hcs ':' hm) (by decide)

theorem Schemed.hasMark (h : Schemed url) : HasMark url := by
  obtain ⟨scheme, rest, -, rfl⟩ := h
  exact ⟨scheme, rest, by simp⟩

theorem Schemed.isAlpha_head (h : Schemed url) : ∀ c ∈ url.head?, c.isAlpha := by
  obtain ⟨scheme, rest, hs, rfl⟩ := h
  cases scheme
  case nil => contradiction
  case cons c scheme => simpa using ((Bool.and_eq_true _ _).mp hs).1

theorem hasMark_of_slash (hs : ':' ∉ scheme)
    (h : HasMark (scheme ++ ':' :: '/' :: url.dropWhile (· = '/'))) : HasMark url := by
  obtain ⟨xs, ys, h⟩ := h
  rw [List.append_assoc] at h
  rcases append_cons_cases hs h.symm with ⟨-, he⟩ | ⟨zs, -, he⟩
  case inl =>
    -- the first slash that is left would be a leading one
    have hh := List.head?_dropWhile_not (p := fun c => decide (c = '/')) url
    rw [← (List.cons.inj he).2] at hh
    simp at hh
  case inr =>
    cases zs
    case nil => exact absurd (List.cons.inj he).1 (by decide)
    case cons z zs =>
      have hm : HasMark (url.dropWhile (· = '/')) := ⟨zs, ys, by simpa using (List.cons.inj he).2.symm⟩
      exact hm.trans (List.dropWhile_suffix _).isInfix

end Marks

section Joining

theorem absolute_of_hasMark {url : String} (base : String) (h : HasMark url.toList) :
    absolute (some base) url = url := if_pos (hasScheme_iff.mpr h)

theorem absolute_of_not_hasMark {url : String} (base : String) (h : ¬HasMark url.toList) :
    absolute (some base) url = String.ofList (joined base.toList url.toList) :=
  if_neg (mt hasScheme_iff.mp h)

theorem rdropWhile_append_cons (hc : c ≠ '/') :
    (xs ++ c :: ys).rdropWhile (· = '/') = xs ++ c :: ys.rdropWhile (· = '/') := by
  have hr : (xs ++ c :: ys).reverse = ys.reverse ++ c :: xs.reverse := by simp
  have hd : (c :: xs.reverse).dropWhile (· = '/') = c :: xs.reverse :=
    List.dropWhile_cons_of_neg (by simpa using hc)
  rw [List.rdropWhile, hr, List.dropWhile_append, hd, List.rdropWhile]
  split
  case isTrue he => simp [List.isEmpty_iff.mp he]
  case isFalse => simp

theorem schemed_joined (hb : Schemed base) (hh : HasHost base) : Schemed (joined base url) := by
  obtain ⟨scheme, rest, hs, rfl⟩ := hb
  obtain ⟨scheme', rest', hs', he, c, hm, hc⟩ := hh
  obtain ⟨rfl, rfl⟩ := append_cons_inj (colon_not_mem hs) hs' he
  have hm : c ∈ rest := by simpa [hc] using hm
  obtain ⟨xs, ys, rfl⟩ := List.append_of_mem hm
  have hf : (scheme ++ ':' :: '/' :: '/' :: (xs ++ c :: ys)).rdropWhile (· = '/') =
      scheme ++ ':' :: '/' :: '/' :: (xs ++ c :: ys.rdropWhile (· = '/')) := by
    have ha : scheme ++ ':' :: '/' :: '/' :: (xs ++ c :: ys) =
        (scheme ++ ':' :: '/' :: '/' :: xs) ++ c :: ys := by simp
    rw [ha, rdropWhile_append_cons hc]
    simp
  refine ⟨scheme, xs ++ c :: (ys.rdropWhile (· = '/') ++ '/' :: url.dropWhile (· = '/')), hs, ?_⟩
  rw [joined, hf]
  simp

theorem joined_of_not_hasHost (hb : Schemed base) (hh : ¬HasHost base) (url : List Char) :
    ∃ scheme, ':' ∉ scheme ∧ joined base url = scheme ++ ':' :: '/' :: url.dropWhile (· = '/') := by
  obtain ⟨scheme, rest, hs, rfl⟩ := hb
  have hr : ∀ c ∈ '/' :: '/' :: rest, c = '/' := fun c hc =>
    Decidable.byContradiction fun hne => hh ⟨scheme, _, colon_not_mem hs, rfl, c, hc, hne⟩
  have hn : ('/' :: '/' :: rest).rdropWhile (· = '/') = [] :=
    List.rdropWhile_eq_nil_iff.mpr fun c hc => decide_eq_true (hr c hc)
  refine ⟨scheme, colon_not_mem hs, ?_⟩
  rw [joined, rdropWhile_append_cons (by decide), hn, List.append_assoc]
  rfl

theorem hasMark_joined_iff (hb : Schemed base) (hu : ¬HasMark url) :
    HasMark (joined base url) ↔ HasHost base := by
  constructor
  case mpr => exact fun hh => (schemed_joined hb hh).hasMark
  case mp =>
    refine fun hm => Classical.byContradiction fun hh => hu ?_
    obtain ⟨scheme, hs, he⟩ := joined_of_not_hasHost hb hh url
    exact hasMark_of_slash hs (he ▸ hm)

theorem schemed_joined_iff (hb : Schemed base) (hu : ¬HasMark url) :
    Schemed (joined base url) ↔ HasHost base :=
  ⟨fun h => (hasMark_joined_iff hb hu).mp h.hasMark, schemed_joined hb⟩

theorem joined_ne (hb : Schemed base) : joined base url ≠ url := by
  obtain ⟨scheme, rest, hs, rfl⟩ := hb
  intro he
  rw [joined, rdropWhile_append_cons (by decide)] at he
  cases scheme
  case nil => contradiction
  case cons c scheme =>
    cases url
    case nil => contradiction
    case cons d url =>
      obtain rfl : c = d := (List.cons.inj he).1
      have hc : c ≠ '/' := by
        rintro rfl
        contradiction
      rw [List.dropWhile_cons_of_neg (by simpa using hc)] at he
      have hl := congrArg List.length he
      simp only [List.length_append, List.length_cons] at hl
      omega

end Joining

section Absolute

variable {base : String}

theorem schemed_absolute_iff (hb : Schemed base.toList) (url : String) :
    Schemed (absolute (some base) url).toList ↔
      Schemed url.toList ∨ ¬HasMark url.toList ∧ HasHost base.toList := by
  by_cases hm : HasMark url.toList
  case pos =>
    rw [absolute_of_hasMark base hm]
    exact (or_iff_left fun h => h.1 hm).symm
  case neg =>
    rw [absolute_of_not_hasMark base hm, String.toList_ofList, schemed_joined_iff hb hm]
    exact ⟨fun h => .inr ⟨hm, h⟩, fun h => (h.resolve_left (mt Schemed.hasMark hm)).2⟩

theorem absolute_absolute_iff (hb : Schemed base.toList) (url : String) :
    absolute (some base) (absolute (some base) url) = absolute (some base) url ↔
      HasMark url.toList ∨ HasHost base.toList := by
  by_cases hm : HasMark url.toList
  case pos =>
    rw [absolute_of_hasMark base hm, absolute_of_hasMark base hm]
    exact iff_of_true rfl (.inl hm)
  case neg =>
    have hj := hasMark_joined_iff hb hm
    rw [absolute_of_not_hasMark base hm]
    constructor
    case mpr =>
      intro h
      exact absolute_of_hasMark base (by rw [String.toList_ofList, hj]; exact h.resolve_left hm)
    case mp =>
      intro he
      refine .inr (hj.mp (Classical.byContradiction fun hn => ?_))
      rw [absolute_of_not_hasMark base (by rwa [String.toList_ofList]), String.toList_ofList] at he
      exact joined_ne hb (String.ofList_injective he)

-- The exact conditions under which
-- 1. a URL with a scheme stays as it is, always
-- 2. another URL is put behind the base
-- 3. what comes out has a scheme
-- 4. what comes out stays as it is.
theorem absolute_lawful (hb : Schemed base.toList) (url : String) :
    (Schemed url.toList → absolute (some base) url = url) ∧
    (¬Schemed url.toList →
      (absolute (some base) url = String.ofList (joined base.toList url.toList) ↔
        ¬HasMark url.toList)) ∧
    (Schemed (absolute (some base) url).toList ↔
      Schemed url.toList ∨ ¬HasMark url.toList ∧ HasHost base.toList) ∧
    (absolute (some base) (absolute (some base) url) = absolute (some base) url ↔
      HasMark url.toList ∨ HasHost base.toList) := by
  refine ⟨fun h => absolute_of_hasMark base h.hasMark, fun _ => ⟨?_, absolute_of_not_hasMark base⟩,
    schemed_absolute_iff hb url, absolute_absolute_iff hb url⟩
  intro he hm
  rw [absolute_of_hasMark base hm] at he
  exact joined_ne hb ((congrArg String.toList he).trans String.toList_ofList).symm

end Absolute

theorem schemed_example : Schemed "https://example.com/".toList :=
  ⟨"https".toList, "example.com/".toList, by decide, rfl⟩

theorem home_absolute : absolute (some "https://example.com/") "/home" = "https://example.com/home" ∧
    Schemed "https://example.com/home".toList ∧
    absolute (some "https://example.com/") "https://example.com/home" = "https://example.com/home" := by
  obtain ⟨-, hj, hs, hi⟩ := absolute_lawful schemed_example "/home"
  have hm : ¬HasMark "/home".toList := mt hasScheme_iff.mpr (by decide)
  have hh : HasHost "https://example.com/".toList :=
    ⟨"https".toList, "//example.com/".toList, by decide, rfl, 'e', by decide, by decide⟩
  have he : absolute (some "https://example.com/") "/home" = "https://example.com/home" := rfl
  rw [he] at hs hi
  exact ⟨he, hs.mpr (.inr ⟨hm, hh⟩), hi.mpr (.inr hh)⟩

-- A URL in the query keeps the path from being put behind the base, and nothing but slashes behind the
-- scheme keeps the URL from having one.
theorem exists_unresolved :
    (Schemed "https://example.com/".toList ∧ ¬Schemed "/login?next=https://other.com/x".toList ∧
      absolute (some "https://example.com/") "/login?next=https://other.com/x" =
        "/login?next=https://other.com/x") ∧
    Schemed "app://".toList ∧ absolute (some "app://") "home" = "app:/home" ∧
      ¬Schemed "app:/home".toList ∧ absolute (some "app://") "app:/home" ≠ "app:/home" := by
  have hn : ¬HasMark "app:/home".toList := mt hasScheme_iff.mpr (by decide)
  refine ⟨⟨schemed_example, fun h => ?_, rfl⟩, ⟨"app".toList, [], by decide, rfl⟩, rfl,
    mt Schemed.hasMark hn, by decide⟩
  exact absurd (h.isAlpha_head '/' rfl) (by decide)

end BindingEngine.Url
