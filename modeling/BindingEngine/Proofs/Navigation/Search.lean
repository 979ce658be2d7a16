import Mathlib.Data.List.TakeDrop
import BindingEngine.Navigation.Navigator
import BindingEngine.Proofs.Expr.Lexing

namespace BindingEngine.Navigator

def screens (n : Navigator) : List Screen := (n.presented.head?.map (·.screens)).getD []

-- The topmost of the screens with a property, those above it and those below it.
structure Topmost (P : Screen → Prop) (screens above : List Screen) (screen : Screen)
    (below : List Screen) : Prop where
  split : screens = above ++ screen :: below
  holds : P screen
  first : ∀ other ∈ above, ¬P other

variable {n : Navigator} {P : Screen → Prop} [DecidablePred P] {screens above below : List Screen}
variable {screen : Screen} {controller : Option String} {others : List Stack}
variable {target absolute : String}

theorem exists_topmost (h : ∃ screen ∈ screens, P screen) :
    ∃ above screen below, Topmost P screens above screen below := by
  obtain ⟨screen, hs⟩ := Option.isSome_iff_exists.mp
    (List.find?_isSome (p := fun screen => decide (P screen)) |>.mpr (by simpa using h))
  obtain ⟨hp, above, below, rfl, hn⟩ := List.find?_eq_some_iff_append.mp hs
  exact ⟨above, screen, below, rfl, by simpa using hp, by simpa using hn⟩

theorem Topmost.splitAt?_eq (h : Topmost P screens above screen below) :
    splitAt? (fun screen => P screen) screens = some (above, screen :: below) := by
  have hn : ∀ other ∈ above, !decide (P other) := by simpa using h.first
  have hs : ∀ other ∈ (screen :: below).head?, ¬!decide (P other) := by simpa using h.holds
  have hany : screens.any fun screen => P screen := by simp [h.split, h.holds]
  rw [splitAt?, if_pos hany, List.span_eq_takeWhile_dropWhile, h.split, takeWhile_append_of_head hn hs,
    dropWhile_append_of_head hn hs]

theorem splitAt?_eq_none (h : ∀ screen ∈ screens, ¬P screen) :
    splitAt? (fun screen => P screen) screens = none := by
  have hany : ¬screens.any fun screen => P screen := by simpa using h
  rw [splitAt?, if_neg hany]

omit [DecidablePred P] in
theorem presented_of_topmost (h : Topmost P n.screens above screen below) :
    ∃ controller others, n.presented = ⟨controller, above ++ screen :: below⟩ :: others := by
  have hs := h.split
  unfold Navigator.screens at hs
  cases hn : n.presented
  case nil => simp [hn] at hs
  case cons stack others =>
    obtain ⟨controller, screens⟩ := stack
    obtain rfl : screens = above ++ screen :: below := by simpa [hn] using hs
    exact ⟨controller, others, rfl⟩

structure FoundIn (n : Navigator) (target absolute : String) (above : List Screen) (screen : Screen)
    (below : List Screen) (controller : Option String) (others : List Stack) : Prop where
  presented : n.presented = ⟨controller, above ++ screen :: below⟩ :: others
  popped : n.popToView target absolute =
    some (above.map Screen.root, ⟨⟨controller, screen :: below⟩ :: others⟩)

theorem exists_foundIn_of_url
    (h : Topmost (·.url = some absolute) n.screens above screen below) :
    ∃ controller others, FoundIn n target absolute above screen below controller others := by
  obtain ⟨controller, others, hn⟩ := presented_of_topmost h
  have hs : n.screens = above ++ screen :: below := h.split
  rw [hs] at h
  refine ⟨controller, others, hn, ?_⟩
  simp only [popToView, hn, h.splitAt?_eq, Option.some_or]

theorem exists_foundIn_of_identifier (hu : ∀ screen ∈ n.screens, screen.url ≠ some absolute)
    (h : Topmost (·.identifier = some target) n.screens above screen below) :
    ∃ controller others, FoundIn n target absolute above screen below controller others := by
  obtain ⟨controller, others, hn⟩ := presented_of_topmost h
  have hs : n.screens = above ++ screen :: below := h.split
  rw [hs] at h hu
  refine ⟨controller, others, hn, ?_⟩
  simp only [popToView, hn, splitAt?_eq_none hu, h.splitAt?_eq, Option.none_or]

theorem popToView_eq_none (hu : ∀ screen ∈ n.screens, screen.url ≠ some absolute)
    (hi : ∀ screen ∈ n.screens, screen.identifier ≠ some target) :
    n.popToView target absolute = none := by
  cases hn : n.presented
  case nil => simp only [popToView, hn]
  case cons stack others =>
    have hs : n.screens = stack.screens := by simp [Navigator.screens, hn]
    rw [hs] at hu hi
    simp only [popToView, hn, splitAt?_eq_none hu, splitAt?_eq_none hi, Option.none_or]

end BindingEngine.Navigator
