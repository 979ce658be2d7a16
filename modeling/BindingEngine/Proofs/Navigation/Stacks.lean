import Mathlib.Data.List.Perm.Basic
import Mathlib.Data.List.TakeDrop
import Mathlib.Data.List.TakeWhile
import BindingEngine.Navigation.Navigator

open scoped List

namespace BindingEngine.Navigator

variable {n n' : Navigator} {s : Screen} {target absolute : String} {removed : List NodeId}

theorem roots_resetApplication (n : Navigator) (s : Screen) (controller : Option String) :
    (n.resetApplication s controller).1 ++ (n.resetApplication s controller).2.roots ~
      s.root :: n.roots := by
  simp [resetApplication, roots, Stack.roots]

theorem roots_resetStack (n : Navigator) (s : Screen) :
    (n.resetStack s).1 ++ (n.resetStack s).2.roots ~ s.root :: n.roots := by
  unfold resetStack
  split
  case h_1 hn => simp [roots, Stack.roots, hn]
  case h_2 hn => simp [roots, Stack.roots, hn]

theorem roots_pushStack (n : Navigator) (s : Screen) (controller : Option String) :
    (n.pushStack s controller).roots = s.root :: n.roots :=
  rfl

theorem roots_pushView (n : Navigator) (s : Screen) : (n.pushView s).roots = s.root :: n.roots := by
  unfold pushView
  split
  case h_1 hn => simp [roots, Stack.roots, hn]
  case h_2 hn => simp [roots, Stack.roots, hn]

theorem roots_popStack (n : Navigator) : n.popStack.1 ++ n.popStack.2.roots = n.roots := by
  unfold popStack
  split
  case h_1 hn => simp [roots, hn]
  case h_2 => rfl

theorem roots_popView (n : Navigator) : n.popView.1 ++ n.popView.2.roots = n.roots := by
  unfold popView
  split
  case h_1 hn => simp [roots, Stack.roots, hn]
  case h_2 => exact roots_popStack n

theorem of_splitAt? {p : Screen → Bool} {screens above rest : List Screen}
    (h : splitAt? p screens = some (above, rest)) : above ++ rest = screens ∧ rest ≠ [] := by
  unfold splitAt? at h
  split at h
  case isFalse => contradiction
  case isTrue hp =>
    rw [List.span_eq_takeWhile_dropWhile, Option.some.injEq, Prod.mk.injEq] at h
    refine ⟨by rw [← h.1, ← h.2, List.takeWhile_append_dropWhile], fun hr => ?_⟩
    obtain ⟨screen, hs, hp⟩ := List.any_eq_true.mp hp
    simpa [hp] using List.dropWhile_eq_nil_iff.mp (h.2.trans hr) screen hs

theorem of_popToView (h : n.popToView target absolute = some (removed, n')) :
    ∃ stack others above rest, n.presented = stack :: others ∧ above ++ rest = stack.screens ∧
      rest ≠ [] ∧ removed = above.map (·.root) ∧
      n' = ⟨{ stack with screens := rest } :: others⟩ := by
  unfold popToView at h
  split at h
  case h_1 => contradiction
  case h_2 stack others hn =>
    split at h
    case h_1 => contradiction
    case h_2 above rest hs =>
      obtain ⟨ha, hr⟩ : above ++ rest = stack.screens ∧ rest ≠ [] := by
        rcases Option.or_eq_some_iff.mp hs with hs | hs
        case inl => exact of_splitAt? hs
        case inr => exact of_splitAt? hs.2
      obtain ⟨rfl, rfl⟩ := Prod.mk.inj (Option.some.inj h)
      exact ⟨stack, others, above, rest, hn, ha, hr, rfl, rfl⟩

theorem roots_popToView (h : n.popToView target absolute = some (removed, n')) :
    removed ++ n'.roots = n.roots := by
  obtain ⟨stack, others, above, rest, hn, ha, _, rfl, rfl⟩ := of_popToView h
  simp [roots, Stack.roots, hn, ← ha]

def Filled (n : Navigator) : Prop :=
  ∀ stack ∈ n.presented, stack.screens ≠ []

namespace Filled

theorem empty : Filled {} := by
  simp [Filled]

theorem isSome_current? (h : n.Filled) (hn : n.presented ≠ []) : n.current?.isSome := by
  obtain ⟨stack, others, hp⟩ := List.exists_cons_of_ne_nil hn
  have hs : stack.screens ≠ [] := h stack (hp ▸ List.mem_cons_self)
  simpa [current?, hp, List.isSome_head?] using hs

theorem resetApplication (s : Screen) (controller : Option String) :
    (n.resetApplication s controller).2.Filled := by
  simp [Filled, Navigator.resetApplication]

variable (h : n.Filled)

include h

theorem resetStack (s : Screen) : (n.resetStack s).2.Filled := by
  unfold Navigator.resetStack
  split
  case h_1 => simp [Filled]
  case h_2 hn => simpa [Filled, hn] using fun stack hs => h stack (hn ▸ List.mem_cons_of_mem _ hs)

theorem pushStack (s : Screen) (controller : Option String) : (n.pushStack s controller).Filled := by
  simpa [Filled, Navigator.pushStack] using h

theorem pushView (s : Screen) : (n.pushView s).Filled := by
  unfold Navigator.pushView
  split
  case h_1 => simp [Filled]
  case h_2 hn => simpa [Filled, hn] using fun stack hs => h stack (hn ▸ List.mem_cons_of_mem _ hs)

end Filled

-- Screens were taken away, those on top, and no stack was emptied or the last one taken.
structure Popped (n : Navigator) (removed : List NodeId) (n' : Navigator) : Prop where
  roots : removed ++ n'.roots = n.roots
  filled : n.Filled → n'.Filled
  presented : n.presented ≠ [] → n'.presented ≠ []

theorem popped_popStack (n : Navigator) : Popped n n.popStack.1 n.popStack.2 where
  roots := roots_popStack n
  filled h := by
    unfold popStack
    split
    case h_1 hn => exact fun stack hs => h stack (hn ▸ List.mem_cons_of_mem _ hs)
    case h_2 => exact h
  presented h := by
    unfold popStack
    split
    case h_1 => exact List.cons_ne_nil _ _
    case h_2 => exact h

theorem popped_popView (n : Navigator) : Popped n n.popView.1 n.popView.2 where
  roots := roots_popView n
  filled h := by
    unfold popView
    split
    case h_1 hn => simpa [Filled, hn] using fun stack hs => h stack (hn ▸ List.mem_cons_of_mem _ hs)
    case h_2 => exact (popped_popStack n).filled h
  presented h := by
    unfold popView
    split
    case h_1 => exact List.cons_ne_nil _ _
    case h_2 => exact (popped_popStack n).presented h

theorem popped_popToView (h : n.popToView target absolute = some (removed, n')) :
    Popped n removed n' where
  roots := roots_popToView h
  filled hf := by
    obtain ⟨_, _, _, _, hn, _, hr, _, rfl⟩ := of_popToView h
    simpa [Filled, hr] using fun stack hs => hf stack (hn ▸ List.mem_cons_of_mem _ hs)
  presented _ := by
    obtain ⟨_, _, _, _, _, _, _, _, rfl⟩ := of_popToView h
    exact List.cons_ne_nil _ _

theorem Popped.refl (n : Navigator) : Popped n [] n :=
  ⟨rfl, id, id⟩

theorem Popped.current? (h : Popped n removed n') (hf : n.Filled) (hr : removed ≠ []) :
    ∃ screen, n'.current? = some screen := by
  refine Option.isSome_iff_exists.mp ((h.filled hf).isSome_current? (h.presented fun hn => hr ?_))
  exact (List.append_eq_nil_iff.mp (h.roots.trans (by simp [Navigator.roots, hn]))).1

theorem mem_roots_of_current? {screen : Screen} (h : n.current? = some screen) :
    screen.root ∈ n.roots := by
  obtain ⟨stack, hs, hc⟩ := Option.bind_eq_some_iff.mp h
  refine List.mem_flatMap.mpr ⟨stack, List.mem_of_head? hs, ?_⟩
  exact List.mem_map_of_mem (List.mem_of_head? hc)

end BindingEngine.Navigator
