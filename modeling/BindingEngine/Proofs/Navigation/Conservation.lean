import Mathlib.Data.List.Induction
import Mathlib.Data.List.Nodup
import BindingEngine.Proofs.Navigation.Stacks

open scoped List

namespace BindingEngine

-- Where a screen is on display. Stacks are counted from the bottom, and so are the screens of a stack,
-- so that nothing that is done on top of a screen changes its place.
structure Place where
  stack : Nat
  controller : Option String
  level : Nat
deriving DecidableEq

namespace Stack

variable {i : Nat} {controller : Option String}

def placed (i : Nat) (controller : Option String) : List Screen → List (Place × Screen)
  | [] => []
  | screen :: below => (⟨i, controller, below.length⟩, screen) :: placed i controller below

theorem map_placed (screens : List Screen) : (placed i controller screens).map (·.2) = screens := by
  induction screens
  case nil => rfl
  case cons screen below hi => exact congrArg (screen :: ·) hi

theorem roots_placed (screens : List Screen) :
    (placed i controller screens).map (·.2.root) = screens.map (·.root) := by
  rw [← congrArg (List.map Screen.root) (map_placed screens), List.map_map]
  rfl

theorem exists_placed_append (i : Nat) (controller : Option String) (above below : List Screen) :
    ∃ gone, gone.map (·.2) = above ∧
      placed i controller (above ++ below) = gone ++ placed i controller below := by
  induction above
  case nil => exact ⟨[], rfl, rfl⟩
  case cons screen above hi =>
    obtain ⟨gone, rfl, hg⟩ := hi
    exact ⟨_ :: gone, rfl, congrArg _ hg⟩

theorem of_mem_placed {screens : List Screen} {p : Place}
    (h : p ∈ (placed i controller screens).map (·.1)) :
    p.stack = i ∧ p.level < screens.length := by
  induction screens
  case nil => contradiction
  case cons screen below hi =>
    rcases List.mem_cons.mp h with rfl | h
    case inl => exact ⟨rfl, Nat.lt_succ_self _⟩
    case inr => exact ⟨(hi h).1, Nat.lt_succ_of_lt (hi h).2⟩

theorem nodup_placed (screens : List Screen) : ((placed i controller screens).map (·.1)).Nodup := by
  induction screens
  case nil => exact .nil
  case cons screen below hi =>
    exact List.nodup_cons.mpr ⟨fun hm => Nat.lt_irrefl _ (of_mem_placed hm).2, hi⟩

end Stack

namespace Navigator

def placedIn : List Stack → List (Place × Screen)
  | [] => []
  | stack :: below => Stack.placed below.length stack.controller stack.screens ++ placedIn below

def placed (n : Navigator) : List (Place × Screen) := placedIn n.presented

variable {n n' : Navigator} {removed : List NodeId} {stack : Stack} {others : List Stack}

section Places

theorem placed_nil (h : n.presented = []) : n.placed = [] := by
  rw [placed, h, placedIn]

theorem placed_cons (h : n.presented = stack :: others) :
    n.placed = Stack.placed others.length stack.controller stack.screens ++ placedIn others := by
  rw [placed, h, placedIn]

theorem lt_of_mem_placedIn {below : List Stack} {p : Place} (h : p ∈ (placedIn below).map (·.1)) :
    p.stack < below.length := by
  induction below
  case nil => contradiction
  case cons stack below hi =>
    rw [placedIn, List.map_append] at h
    rcases List.mem_append.mp h with h | h
    case inl => exact (Stack.of_mem_placed h).1 ▸ Nat.lt_succ_self _
    case inr => exact Nat.lt_succ_of_lt (hi h)

theorem nodup_places (n : Navigator) : (n.placed.map (·.1)).Nodup := by
  unfold placed
  induction n.presented
  case nil => exact .nil
  case cons stack below hi =>
    rw [placedIn, List.map_append]
    refine List.nodup_append.mpr ⟨Stack.nodup_placed _, hi, fun p hp q hq he => ?_⟩
    have hl := lt_of_mem_placedIn hq
    rw [← he, (Stack.of_mem_placed hp).1] at hl
    exact Nat.lt_irrefl _ hl

theorem roots_eq (n : Navigator) : n.roots = n.placed.map (·.2.root) := by
  unfold roots placed
  induction n.presented
  case nil => rfl
  case cons stack below hi =>
    rw [List.flatMap_cons, placedIn, List.map_append, hi, Stack.roots_placed]
    rfl

end Places

inductive Operation where
  | resetApplication (screen : Screen) (controller : Option String)
  | clear
  | resetStack (screen : Screen)
  | pushStack (screen : Screen) (controller : Option String)
  | pushView (screen : Screen)
  | popStack
  | popView
  | popToView (target absolute : String)

namespace Operation

def screen? : Operation → Option Screen
  | resetApplication screen _ | resetStack screen | pushStack screen _ | pushView screen => some screen
  | _ => none

def IsPop : Operation → Prop
  | popStack | popView | popToView _ _ => True
  | _ => False

end Operation

def apply (n : Navigator) : Operation → List NodeId × Navigator
  | .resetApplication screen controller => n.resetApplication screen controller
  | .clear => n.clear
  | .resetStack screen => n.resetStack screen
  | .pushStack screen controller => ([], n.pushStack screen controller)
  | .pushView screen => ([], n.pushView screen)
  | .popStack => n.popStack
  | .popView => n.popView
  | .popToView target absolute => (n.popToView target absolute).getD ([], n)

-- What is done with an empty navigator, one operation after the other: the roots of all screens that
-- were taken away on the way, and what is left.
def run (ops : List Operation) : List NodeId × Navigator :=
  ops.foldl (fun (returned, n) op => (returned ++ (n.apply op).1, (n.apply op).2)) ([], {})

variable {op : Operation}

-- Screens are taken away from the top and presented on top, and those between keep their places.
structure Exchanged (n : Navigator) (screen? : Option Screen) (removed : List NodeId) (n' : Navigator)
    (gone kept come : List (Place × Screen)) : Prop where
  before : n.placed = gone ++ kept
  after : n'.placed = come ++ kept
  gone : gone.map (·.2.root) = removed
  come : come.map (·.2) = screen?.toList

theorem Exchanged.refl (n : Navigator) : Exchanged n none [] n [] n.placed [] :=
  ⟨rfl, rfl, rfl, rfl⟩

theorem exists_exchanged_popStack (n : Navigator) :
    ∃ gone kept, Exchanged n none n.popStack.1 n.popStack.2 gone kept [] := by
  unfold popStack
  split
  case h_2 => exact ⟨_, _, .refl n⟩
  case h_1 stack other others hn =>
    exact ⟨_, _, placed_cons hn, rfl, Stack.roots_placed stack.screens, rfl⟩

theorem exists_exchanged_popToView {target absolute : String}
    (h : n.popToView target absolute = some (removed, n')) :
    ∃ gone kept, Exchanged n none removed n' gone kept [] := by
  obtain ⟨stack, others, above, rest, hn, ha, _, rfl, rfl⟩ := of_popToView h
  obtain ⟨gone, rfl, hg⟩ := Stack.exists_placed_append others.length stack.controller above rest
  refine ⟨gone, placedIn ({ stack with screens := rest } :: others), ?_, rfl, ?_, rfl⟩
  case refine_1 => rw [placed_cons hn, ← ha, hg, List.append_assoc, placedIn]
  case refine_2 => rw [List.map_map]; rfl

theorem exists_exchanged_popView (n : Navigator) :
    ∃ gone kept, Exchanged n none n.popView.1 n.popView.2 gone kept [] := by
  unfold popView
  split
  case h_2 => exact exists_exchanged_popStack n
  case h_1 controller screen below more others hn =>
    exact ⟨[_], placedIn (⟨controller, below :: more⟩ :: others), placed_cons hn, rfl, rfl, rfl⟩

theorem exists_exchanged (n : Navigator) (op : Operation) : ∃ gone kept come,
    Exchanged n op.screen? (n.apply op).1 (n.apply op).2 gone kept come := by
  cases op
  case resetApplication screen controller =>
    exact ⟨n.placed, [], [(⟨0, controller, 0⟩, screen)], (List.append_nil _).symm, rfl,
      n.roots_eq.symm, rfl⟩
  case clear => exact ⟨n.placed, [], [], (List.append_nil _).symm, rfl, n.roots_eq.symm, rfl⟩
  case resetStack screen =>
    simp only [apply, resetStack]
    split
    case h_1 hn => exact ⟨[], [], [(⟨0, none, 0⟩, screen)], placed_nil hn, rfl, rfl, rfl⟩
    case h_2 stack others hn =>
      exact ⟨_, _, [(⟨others.length, stack.controller, 0⟩, screen)], placed_cons hn, rfl,
        Stack.roots_placed stack.screens, rfl⟩
  case pushStack screen controller =>
    exact ⟨[], n.placed, [(⟨n.presented.length, controller, 0⟩, screen)], rfl, rfl, rfl, rfl⟩
  case pushView screen =>
    simp only [apply, pushView]
    split
    case h_1 hn => exact ⟨[], [], [(⟨0, none, 0⟩, screen)], placed_nil hn, rfl, rfl, rfl⟩
    case h_2 stack others hn =>
      exact ⟨[], n.placed, [(⟨others.length, stack.controller, stack.screens.length⟩, screen)], rfl,
        congrArg (_ :: ·) (placed_cons hn).symm, rfl, rfl⟩
  case popStack =>
    obtain ⟨gone, kept, h⟩ := exists_exchanged_popStack n
    exact ⟨gone, kept, [], h⟩
  case popView =>
    obtain ⟨gone, kept, h⟩ := exists_exchanged_popView n
    exact ⟨gone, kept, [], h⟩
  case popToView target absolute =>
    simp only [apply]
    cases hp : n.popToView target absolute
    case none => exact ⟨[], n.placed, [], .refl n⟩
    case some popped =>
      obtain ⟨gone, kept, h⟩ := exists_exchanged_popToView hp
      exact ⟨gone, kept, [], h⟩

theorem filled_apply (h : n.Filled) (op : Operation) : (n.apply op).2.Filled := by
  cases op
  case resetApplication screen controller => exact .resetApplication screen controller
  case clear => exact .empty
  case resetStack screen => exact h.resetStack screen
  case pushStack screen controller => exact h.pushStack screen controller
  case pushView screen => exact h.pushView screen
  case popStack => exact n.popped_popStack.filled h
  case popView => exact n.popped_popView.filled h
  case popToView target absolute =>
    simp only [apply]
    cases hp : n.popToView target absolute
    case none => exact h
    case some popped => exact (popped_popToView hp).filled h

theorem presented_pop (h : op.IsPop) (hn : n.presented ≠ []) : (n.apply op).2.presented ≠ [] := by
  cases op
  case popStack => exact n.popped_popStack.presented hn
  case popView => exact n.popped_popView.presented hn
  case popToView target absolute =>
    simp only [apply]
    cases hp : n.popToView target absolute
    case none => exact hn
    case some popped => exact (popped_popToView hp).presented hn
  all_goals contradiction

theorem current?_apply {screen : Screen} (h : op.screen? = some screen) :
    (n.apply op).2.current? = some screen := by
  cases op
  all_goals
    cases h
  case resetApplication => rfl
  case resetStack =>
    simp only [apply, resetStack]
    split <;> rfl
  case pushStack => rfl
  case pushView =>
    simp only [apply, pushView]
    split <;> rfl

-- What an operation does to the screens on display.
structure Conserves (n : Navigator) (op : Operation) (returned : List NodeId) (n' : Navigator) :
    Prop where
  -- those are taken away that are not there any more, each once and the topmost first
  gone : returned = n.roots.filter (· ∉ n'.roots)
  once : returned.Nodup
  -- the others stay where they are, and in their order
  stays : n'.placed.filter (·.2.root ∈ n.roots) = n.placed.filter (·.2.root ∈ n'.roots)
  -- none comes but the one that is presented, and that one is on display then
  comes : (n'.placed.filter (·.2.root ∉ n.roots)).map (·.2) = op.screen?.toList
  current {screen : Screen} : op.screen? = some screen → n'.current? = some screen
  places : (n'.placed.map (·.1)).Nodup
  filled : n'.Filled
  pop : op.IsPop → n.roots ≠ [] → n'.roots ≠ []

theorem roots_ne_nil_iff (h : n.Filled) : n.roots ≠ [] ↔ n.presented ≠ [] := by
  refine ⟨fun hr hn => hr (by simp [roots, hn]), fun hn => ?_⟩
  obtain ⟨screen, hs⟩ := Option.isSome_iff_exists.mp (h.isSome_current? hn)
  exact List.ne_nil_of_mem (mem_roots_of_current? hs)

namespace Exchanged

variable {screen? : Option Screen} {gone kept come : List (Place × Screen)} {p : Place × Screen}
variable (h : Exchanged n screen? removed n' gone kept come)

include h

theorem roots_before : n.roots = removed ++ kept.map (·.2.root) := by
  rw [roots_eq, h.before, List.map_append, h.gone]

theorem roots_after : n'.roots = screen?.toList.map (·.root) ++ kept.map (·.2.root) := by
  rw [roots_eq, h.after, List.map_append, ← h.come, List.map_map]
  rfl

theorem mem_of_mem_kept (hp : p ∈ kept) : p.2.root ∈ n.roots ∧ p.2.root ∈ n'.roots := by
  have hm : p.2.root ∈ kept.map (·.2.root) := List.mem_map_of_mem hp
  rw [h.roots_before, h.roots_after]
  exact ⟨List.mem_append_right _ hm, List.mem_append_right _ hm⟩

variable (hn : n.roots.Nodup) (hc : ∀ screen ∈ screen?, screen.root ∉ n.roots)

include hc

theorem not_mem_of_mem_come (hp : p ∈ come) : p.2.root ∉ n.roots :=
  hc p.2 (Option.mem_toList.mp (h.come ▸ List.mem_map_of_mem hp))

include hn

theorem not_mem_of_mem_removed {root : NodeId} (hr : root ∈ removed) : root ∉ n'.roots := by
  have hm : root ∈ n.roots := h.roots_before ▸ List.mem_append_left _ hr
  rw [h.roots_before] at hn
  rw [h.roots_after]
  intro hm'
  rcases List.mem_append.mp hm' with hs | hk
  case inl =>
    obtain ⟨screen, hp, rfl⟩ := List.mem_map.mp hs
    exact hc screen (Option.mem_toList.mp hp) hm
  case inr => exact (List.nodup_append.mp hn).2.2 root hr root hk rfl

theorem conserves_gone : removed = n.roots.filter (· ∉ n'.roots) := by
  have hg : removed.filter (· ∉ n'.roots) = removed :=
    List.filter_eq_self.mpr fun root hr => decide_eq_true (h.not_mem_of_mem_removed hn hc hr)
  have hk : (kept.map (·.2.root)).filter (· ∉ n'.roots) = [] := by
    refine List.filter_eq_nil_iff.mpr fun root hr => ?_
    obtain ⟨p, hp, rfl⟩ := List.mem_map.mp hr
    simpa using (h.mem_of_mem_kept hp).2
  rw [h.roots_before, List.filter_append, hg, hk, List.append_nil]

theorem conserves_stays :
    n'.placed.filter (·.2.root ∈ n.roots) = n.placed.filter (·.2.root ∈ n'.roots) := by
  have hg : gone.filter (·.2.root ∈ n'.roots) = [] := by
    refine List.filter_eq_nil_iff.mpr fun p hp => ?_
    simpa using h.not_mem_of_mem_removed hn hc (h.gone ▸ List.mem_map_of_mem hp)
  have hm : come.filter (·.2.root ∈ n.roots) = [] := by
    refine List.filter_eq_nil_iff.mpr fun p hp => ?_
    simpa using h.not_mem_of_mem_come hc hp
  have hk : kept.filter (·.2.root ∈ n.roots) = kept.filter (·.2.root ∈ n'.roots) :=
    List.filter_congr fun p hp => by simp [h.mem_of_mem_kept hp]
  rw [h.before, h.after, List.filter_append, List.filter_append, hg, hm, hk]

omit hn in
theorem conserves_comes :
    (n'.placed.filter (·.2.root ∉ n.roots)).map (·.2) = screen?.toList := by
  have hm : come.filter (·.2.root ∉ n.roots) = come :=
    List.filter_eq_self.mpr fun p hp => decide_eq_true (h.not_mem_of_mem_come hc hp)
  have hk : kept.filter (·.2.root ∉ n.roots) = [] := by
    refine List.filter_eq_nil_iff.mpr fun p hp => ?_
    simpa using (h.mem_of_mem_kept hp).1
  rw [h.after, List.filter_append, hm, hk, List.append_nil, h.come]

end Exchanged

theorem conserves_apply (hf : n.Filled) (hn : n.roots.Nodup)
    (hc : ∀ screen ∈ op.screen?, screen.root ∉ n.roots) :
    Conserves n op (n.apply op).1 (n.apply op).2 := by
  obtain ⟨gone, kept, come, h⟩ := n.exists_exchanged op
  refine ⟨h.conserves_gone hn hc, ?_, h.conserves_stays hn hc, h.conserves_comes hc, current?_apply,
    nodup_places _, filled_apply hf op, fun hp hr => ?_⟩
  case refine_1 => exact (List.nodup_append.mp (h.roots_before ▸ hn)).1
  case refine_2 =>
    rw [roots_ne_nil_iff hf] at hr
    rw [roots_ne_nil_iff (filled_apply hf op)]
    exact presented_pop hp hr

section Run

variable {ops : List Operation}

theorem run_concat (ops : List Operation) (op : Operation) :
    run (ops ++ [op]) =
      ((run ops).1 ++ ((run ops).2.apply op).1, ((run ops).2.apply op).2) := by
  rw [run, List.foldl_append]
  rfl

theorem filled_run (ops : List Operation) : (run ops).2.Filled := by
  induction ops using List.reverseRecOn
  case nil => exact .empty
  case append_singleton ops op hi => exact run_concat ops op ▸ filled_apply hi op

theorem run_presented (ops : List Operation) : ∃ gone : List Screen, gone.map (·.root) = (run ops).1 ∧
    gone ++ (run ops).2.placed.map (·.2) ~ ops.filterMap Operation.screen? := by
  induction ops using List.reverseRecOn
  case nil => exact ⟨[], rfl, .refl _⟩
  case append_singleton ops op hi =>
    obtain ⟨gone, hg, hp⟩ := hi
    obtain ⟨gone', kept, come, h⟩ := (run ops).2.exists_exchanged op
    refine ⟨gone ++ gone'.map (·.2), ?_, ?_⟩
    case refine_1 =>
      rw [run_concat, List.map_append, List.map_map, hg, ← h.gone]
      rfl
    case refine_2 =>
      have ho : [op].filterMap Operation.screen? = op.screen?.toList := by
        cases hs : op.screen? <;> simp [hs]
      rw [h.before, List.map_append] at hp
      rw [run_concat, h.after, List.filterMap_append, List.map_append, h.come, ho, List.append_assoc]
      refine .trans (.append_left gone (.append_left _ List.perm_append_comm)) ?_
      rw [← List.append_assoc, ← List.append_assoc, List.append_assoc gone]
      exact hp.append_right _

theorem roots_run (ops : List Operation) : (run ops).1 ++ (run ops).2.roots ~
    (ops.filterMap Operation.screen?).map (·.root) := by
  obtain ⟨gone, hg, hp⟩ := run_presented ops
  have hr := hp.map Screen.root
  rw [List.map_append, hg, List.map_map] at hr
  rw [roots_eq]
  exact hr

theorem existsUnique_placed {screen : Screen} (h : n.roots.Nodup)
    (hs : screen ∈ n.placed.map (·.2)) : ∃! p, (p, screen) ∈ n.placed := by
  obtain ⟨p, hp, rfl⟩ := List.mem_map.mp hs
  rw [roots_eq] at h
  exact ⟨p.1, hp, fun q hq => congrArg Prod.fst (List.inj_on_of_nodup_map h hq hp rfl)⟩

-- What is presented with roots of its own is on display at one place until it is taken away once, and
-- every operation on the way conserves the screens.
theorem screens_conserved (ops : List Operation)
    (h : ((ops.filterMap Operation.screen?).map (·.root)).Nodup) :
    (∀ before op after, ops = before ++ op :: after →
      Conserves (run before).2 op ((run before).2.apply op).1 ((run before).2.apply op).2) ∧
    ∀ screen ∈ ops.filterMap Operation.screen?,
      (∃! p, (p, screen) ∈ (run ops).2.placed) ∧ screen.root ∉ (run ops).1 ∨
      (∀ p, (p, screen) ∉ (run ops).2.placed) ∧ (run ops).1.count screen.root = 1 := by
  constructor
  case left =>
    rintro before op after rfl
    have hr := roots_run before
    rw [List.filterMap_append, List.map_append] at h
    obtain ⟨hb, -, hd⟩ := List.nodup_append.mp h
    refine conserves_apply (filled_run before) ?_ fun screen hs hm => ?_
    case refine_1 => exact (List.nodup_append.mp (hr.nodup_iff.mpr hb)).2.1
    case refine_2 =>
      have ha : screen.root ∈ ((op :: after).filterMap Operation.screen?).map (·.root) :=
        List.mem_map_of_mem (List.mem_filterMap.mpr ⟨op, List.mem_cons_self, hs⟩)
      exact hd _ (hr.subset (List.mem_append_right _ hm)) _ ha rfl
  case right =>
    intro screen hs
    obtain ⟨gone, hg, hp⟩ := run_presented ops
    obtain ⟨hn, hn', hd⟩ := List.nodup_append.mp ((roots_run ops).nodup_iff.mpr h)
    rcases List.mem_append.mp (hp.mem_iff.mpr hs) with hm | hm
    case inl =>
      have hr : screen.root ∈ (run ops).1 := hg ▸ List.mem_map_of_mem hm
      refine .inr ⟨fun p hp => hd _ hr screen.root ?_ rfl, List.count_eq_one_of_mem hn hr⟩
      exact roots_eq _ ▸ List.mem_map_of_mem (f := fun q => q.2.root) hp
    case inr =>
      have hr : screen.root ∈ (run ops).2.roots := by
        obtain ⟨q, hq, rfl⟩ := List.mem_map.mp hm
        exact roots_eq _ ▸ List.mem_map_of_mem hq
      exact .inl ⟨existsUnique_placed hn' hm, fun hr' => hd _ hr' _ hr rfl⟩

-- The only screen of a second flow takes the place of another and is popped, with its flow. Then all
-- screens above the first one are.
def wandering : List Operation :=
  [.pushView ⟨none, some "home", ⟨0, 0⟩⟩, .pushView ⟨none, some "details", ⟨1, 0⟩⟩,
    .pushStack ⟨none, some "login", ⟨2, 0⟩⟩ (some "account"), .resetStack ⟨none, some "code", ⟨3, 0⟩⟩,
    .popView, .popToView "home" "home"]

theorem wandering_conserved :
    ((wandering.filterMap Operation.screen?).map (·.root)).Nodup ∧
    Conserves (run (wandering.take 4)).2 .popView [⟨3, 0⟩] (run (wandering.take 5)).2 ∧
    (∃! p, (p, ⟨none, some "home", ⟨0, 0⟩⟩) ∈ (run wandering).2.placed) ∧
    (run wandering).1.count ⟨1, 0⟩ = 1 := by
  have hn : ((wandering.filterMap Operation.screen?).map (·.root)).Nodup := by decide
  obtain ⟨hc, hs⟩ := screens_conserved wandering hn
  refine ⟨hn, hc (wandering.take 4) .popView [.popToView "home" "home"] rfl, ?_, ?_⟩
  case refine_1 =>
    have hc : (run wandering).1.count ⟨0, 0⟩ ≠ 1 := by decide
    exact ((hs ⟨none, some "home", ⟨0, 0⟩⟩ (by decide)).resolve_right fun h => hc h.2).1
  case refine_2 =>
    have hm : ⟨1, 0⟩ ∈ (run wandering).1 := by decide
    exact ((hs ⟨none, some "details", ⟨1, 0⟩⟩ (by decide)).resolve_left fun h => h.2 hm).2

end Run

end Navigator

end BindingEngine
