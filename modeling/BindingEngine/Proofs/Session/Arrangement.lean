import Mathlib.Data.List.Nodup
import BindingEngine.Proofs.Session.Course
import BindingEngine.Proofs.Tree.Naming

open scoped List

namespace BindingEngine.Session

variable {σ : Type} {s s' : Session σ} {d : Destination} {screen : Screen} {handoff : Handoff}
variable {move : Move} {r : Except Error Unit}

section Filled

theorem filled_display (h : s.navigator.Filled) (how : Presentation) :
    (s.display screen how).navigator.Filled := by
  cases how
  case resetApplication controller =>
    simp only [display, navigator_dismiss]
    exact .resetApplication screen controller
  case resetStack =>
    simp only [display, navigator_dismiss]
    exact h.resetStack screen
  case pushStack controller => exact h.pushStack screen controller
  case pushView => exact h.pushView screen

theorem navigator_reveal {removed : List NodeId} :
    (s.reveal removed handoff).2.navigator = s.navigator := by
  unfold reveal
  split
  case isTrue => rfl
  case isFalse =>
    simp only
    split
    case h_1 => exact navigator_dismiss
    case h_2 => exact navigator_handOver.trans navigator_dismiss

theorem filled_back {how : Return String} (h : s.navigator.Filled) :
    (s.back how handoff).2.navigator.Filled := by
  obtain ⟨_, _, _, hp, he⟩ := s.back_eq how handoff
  rw [he, navigator_reveal]
  exact hp.filled h

theorem filled_perform (h : s.navigator.Filled) (he : s.perform handoff move = (r, s')) :
    s'.navigator.Filled := by
  cases move
  case openUrl =>
    cases he
    exact h
  case openNative screen =>
    simp only [perform] at he
    cases he
    split
    case isTrue =>
      simp only [navigator_dismiss]
      exact .empty
    case isFalse => exact h
  case present how d =>
    simp only [perform] at he
    split at he
    case h_1 hd =>
      cases he
      exact navigator_present hd ▸ h
    case h_2 hd =>
      cases he
      exact filled_display (navigator_present hd ▸ h) how
  case back how =>
    have hb : (s.back how handoff).2.navigator.Filled := filled_back h
    rwa [show s.back how handoff = (r, s') from he] at hb

end Filled

-- The screens on display are arranged in stacks, none of them empty, and have roots of their own. A root
-- that is not there any more is gone for good.
structure Arranged (s : Session σ) : Prop where
  filled : s.navigator.Filled
  nodup : s.navigator.roots.Nodup
  isRoot_or_spent {n : NodeId} : n ∈ s.navigator.roots →
    s.engine.tree.IsRoot n ∨ s.engine.tree.Spent n

namespace Arranged

theorem start (p : Platform σ) (h : σ) (global : Value) (baseUrl : Option String) :
    Arranged (start p h global baseUrl) :=
  ⟨.empty, .nil, fun hn => by contradiction⟩

theorem isRoot (h : Arranged s) {n : NodeId} (hm : n ∈ s.navigator.roots)
    (hc : s.engine.tree.contains n) : s.engine.tree.IsRoot n :=
  (h.isRoot_or_spent hm).resolve_right fun hn => hn.not_contains hc

theorem spent (h : Arranged s) {n : NodeId} (hm : n ∈ s.navigator.roots)
    (hc : ¬s.engine.tree.contains n) : s.engine.tree.Spent n :=
  (h.isRoot_or_spent hm).resolve_left fun hr => hc hr.1

theorem of_sublist (h : Arranged s) (hl : Tree.Later s.engine.tree s'.engine.tree)
    (hf : s'.navigator.Filled) (hr : s'.navigator.roots <+ s.navigator.roots) : Arranged s' :=
  ⟨hf, h.nodup.sublist hr, fun hn => hl.isRoot_or_spent (h.isRoot_or_spent (hr.subset hn))⟩

theorem of_navigator_eq (h : Arranged s) (hl : Tree.Later s.engine.tree s'.engine.tree)
    (hn : s'.navigator = s.navigator) : Arranged s' :=
  h.of_sublist hl (hn ▸ h.filled) (hn ▸ .refl _)

theorem back {how : Return String} (h : Arranged s) (hs : s.engine.Sound) :
    Arranged (s.back how handoff).2 := by
  refine h.of_sublist (Engine.Leads.later (leads_back rfl) hs) (filled_back h.filled) ?_
  obtain ⟨_, _, _, hp, he⟩ := s.back_eq how handoff
  rw [he, navigator_reveal, ← hp.roots]
  exact List.sublist_append_right _ _

variable (hp : s.platform.Builds fun _ _ _ => True) (hs : s.engine.Sound)

include hp hs

theorem present (h : Arranged s) (he : s.present d handoff = (.ok screen, s')) :
    (screen.root :: s'.navigator.roots).Nodup ∧ ∀ n ∈ screen.root :: s'.navigator.roots,
      s'.engine.tree.IsRoot n ∨ s'.engine.tree.Spent n := by
  have hl := (leads_present hp hs he).later hs
  have hn := navigator_present he
  cases presented he
  case built e e' host hh hb =>
    have hr : e.tree.IsRoot s.engine.createRoot.1 := isRoot_handed_createRoot hs hh
    have hl' : Tree.Later e.tree e'.tree :=
      (through_build hp hs hh hb).leads.later ((leads_handed_createRoot hh).sound hs)
    have hu : s.engine.createRoot.1 ∉ s.navigator.roots := fun hm =>
      hs.forest.freeList.not_used_insert {} ((h.isRoot_or_spent hm).imp_left And.left)
    refine ⟨List.nodup_cons.mpr ⟨hu, h.nodup⟩, fun n hm => ?_⟩
    cases hm
    case head => exact hl'.isRoot_or_spent (.inl hr)
    case tail hm => exact hl.isRoot_or_spent (h.isRoot_or_spent hm)

theorem perform (h : Arranged s) (he : s.perform handoff move = (r, s')) : Arranged s' := by
  have hf := filled_perform h.filled he
  have hl := (leads_perform hp hs he).later hs
  cases performed he
  case openedUrl => exact h.of_navigator_eq hl rfl
  case left => exact h.of_navigator_eq hl rfl
  case cleared hd _ =>
    subst hd
    refine h.of_sublist hl hf ?_
    simp only [navigator_dismiss]
    exact List.nil_sublist _
  case refused hd => exact h.of_navigator_eq hl (navigator_present hd)
  case displayed screen s₁ removed navigator hd hn =>
    obtain ⟨hu, hr⟩ := h.present hp hs hd
    have hl' : Engine.Leads s₁.engine ({ s₁ with navigator }.dismiss removed).engine :=
      leads_dismiss (s := { s₁ with navigator }) .refl
    have hl' := hl'.later ((leads_present hp hs hd).sound hs)
    refine ⟨hf, ?_, fun {n} hm => hl'.isRoot_or_spent (hr n (hn.subset ?_))⟩
    case refine_1 =>
      rw [navigator_dismiss]
      exact (List.nodup_append.mp (hn.nodup_iff.mpr hu)).2.1
    case refine_2 =>
      rw [navigator_dismiss] at hm
      exact List.mem_append_right removed hm
  case returned how hd =>
    have hb : Arranged (s.back how handoff).2 := h.back hs
    rwa [hd] at hb

end Arranged

section Course

variable {p : Platform σ} {t t' : Session (σ × Transcript)}
variable {allowed : Engine → Engine.Operation → Prop}

theorem Arranged.progress (h : Arranged t) (hp : t.platform.Builds fun _ _ _ => True)
    (hs : t.engine.Sound) (hg : Progress allowed t t') : Arranged t' := by
  have hl := (hg.leads hp hs).later hs
  cases hg
  case send =>
    refine h.of_navigator_eq hl ?_
    simp only [send]
    split <;> rfl
  case perform => exact h.perform hp hs rfl
  case registerDeepLink route screen =>
    obtain ⟨_, he⟩ := registerDeepLink_eq t route screen
    exact h.of_navigator_eq hl (by rw [he])
  all_goals exact h.of_navigator_eq hl rfl

theorem Proceeds.arranged (hb : p.Builds fun _ _ _ => True) {h : σ} {global : Value}
    {baseUrl : Option String} (hg : Proceeds allowed (Session.start p h global baseUrl) t) :
    Arranged t := by
  induction hg
  case refl => exact .start _ _ _ _
  case tail hg hst hi =>
    obtain ⟨hp, hs⟩ := Proceeds.reached hb hg
    exact hi.progress (hp ▸ hb.transcribed) hs hst

end Course

end BindingEngine.Session
