import BindingEngine.Proofs.Navigation.Search
import BindingEngine.Proofs.Session.Handoff

namespace BindingEngine

namespace Engine

variable {e : Engine} {m root : NodeId} {id : String} {removed : List NodeId} {handoff : Handoff}

-- What is left when the trees of screens are removed, and a value is handed over to the screen that they
-- covered.
def revealed (e : Engine) (removed : List NodeId) (root : NodeId) (handoff : Handoff) : Engine :=
  ((removed.foldl (fun e root => (e.destroy root).2) e).handed root handoff).2

theorem leads_revealed : Leads e (e.revealed removed root handoff) :=
  .trans (leads_foldl_destroy e removed) leads_handed

variable (h : Sound e)

include h

theorem ancestors_revealed : (e.revealed removed root handoff).tree.ancestors m =
    if ∃ r ∈ removed, r ∈ e.tree.ancestors m then [] else e.tree.ancestors m :=
  ancestors_handed.trans (ancestors_destroyAll h removed)

theorem global_revealed : (e.revealed removed root handoff).global = e.global :=
  global_handed.trans (Keeps.destroyAll h removed).global

theorem not_contains_revealed {r : NodeId} (hr : r ∈ removed) :
    ¬(e.revealed removed root handoff).tree.contains r := by
  rw [← Tree.ancestors_ne_nil_iff, ancestors_revealed h]
  split
  case isTrue => exact not_not_intro rfl
  case isFalse hn =>
    refine fun ha => hn ⟨r, hr, Tree.mem_ancestors_self ?_⟩
    exact Tree.ancestors_ne_nil_iff.mp ha

theorem context?_revealed (hm : (e.revealed removed root handoff).tree.contains m)
    (hid : m = root → id ≠ handoffId) :
    (e.revealed removed root handoff).tree.context? m id = e.tree.context? m id := by
  have hc : e.tree.contains m := by
    rw [← Tree.ancestors_ne_nil_iff, ancestors_revealed h] at hm
    split at hm
    case isTrue => contradiction
    case isFalse => exact Tree.ancestors_ne_nil_iff.mp hm
  refine (context?_handed fun hr he => absurd he (hid hr)).trans ?_
  exact (Keeps.destroyAll h removed).context? id hc (contains_handed ▸ hm)

end Engine

namespace Session

open Navigator (Topmost)

variable {σ : Type} {p : Platform σ} {s s' s₀ s₁ : Session (σ × Transcript)} {d : Destination}
variable {above below : List Screen} {screen : Screen} {handoff : Handoff} {r : Except Error Unit}
variable {controller : Option String} {others : List Stack} {t : String}

section Opening

-- A screen is opened through a remote route whose URL evaluates to a text, by a launch, which sees the
-- global context only, or by a navigation.
inductive Opens (t : String) (s s' : Session (σ × Transcript)) : Prop
  | launch {route : RemoteRoute} {root : NodeId} :
    route.url.evaluate (fun id => if id = globalId then some s.engine.global else none) = some t →
    s.launch (.remote route) = (.ok root, s') → Opens t s s'
  | navigate {how : Presentation} {route : RemoteRoute} {context : Option NavigationContext}
    {origin : NodeId} {implicit : List Context} :
    route.url.evaluate (s.resolver origin implicit) = some t →
    s.navigate (.present how (.remote route) context) origin implicit = (.ok (), s') → Opens t s s'

theorem current?_display (s : Session (σ × Transcript)) (screen : Screen) (how : Presentation) :
    (s.display screen how).navigator.current? = some screen := by
  cases how
  case resetApplication => simp only [display, navigator_dismiss]; rfl
  case resetStack =>
    simp only [display, navigator_dismiss, Navigator.resetStack]
    split <;> rfl
  case pushStack => rfl
  case pushView =>
    simp only [display, Navigator.pushView]
    split <;> rfl

theorem url_of_present {how : Presentation} (he : s.present d handoff = (.ok screen, s'))
    {current : Screen} (hc : (s'.display screen how).navigator.current? = some current) :
    current.url = d.url? := by
  rw [current?_display] at hc
  cases hc
  cases presented he
  rfl

theorem destination?_remote {resolve : Resolver} {route : RemoteRoute}
    (ht : route.url.evaluate resolve = some t) (s : Session (σ × Transcript)) :
    ∃ d reports, s.destination? (.remote route) resolve = (some d, reports) ∧
      d.url? = some (Url.absolute s.engine.baseUrl t) := by
  simp only [destination?, Route.destination?, ht]
  exact ⟨_, _, rfl, rfl⟩

theorem url_of_opens (h : Opens t s s') (hc : s'.navigator.current? = some screen) :
    screen.url = some (Url.absolute s.engine.baseUrl t) := by
  cases h
  case launch ht hl =>
    obtain ⟨d, reports, hd, hu⟩ := destination?_remote ht s
    simp only [launch, hd] at hl
    split at hl
    case h_1 => cases hl
    case h_2 hp =>
      cases hl
      exact (url_of_present hp hc).trans hu
  case navigate how route context origin implicit ht hn =>
    obtain ⟨d, reports, hd, hu⟩ := destination?_remote ht s
    obtain ⟨_, -, he⟩ := s.navigate_eq (.present how (.remote route) context) origin implicit
    have hm : (s.move? (s.resolver origin implicit) (.present how (.remote route) context)).1 =
        some (.present how d) := by
      simp only [move?, hd]
    simp only [he, hm, perform] at hn
    split at hn
    case h_1 => cases hn
    case h_2 hp =>
      cases hn
      exact (url_of_present hp hc).trans hu

end Opening

section Returning

structure ReturnedTo (s s' : Session (σ × Transcript)) (above : List Screen) (screen : Screen)
    (below : List Screen) : Prop where
  current : s'.navigator.current? = some screen
  -- nothing but the screens above it is taken away
  presented : ∃ controller others, s.navigator.presented = ⟨controller, above ++ screen :: below⟩ :: others ∧
    s'.navigator.presented = ⟨controller, screen :: below⟩ :: others
  -- the platform is told to dismiss those, the topmost first, and nothing else
  dismissed : s'.transcript = s.transcript ++ above.map (.dismissed ·.root)
  -- nothing is left of them
  torn {top : Screen} {m : NodeId} : top ∈ above → top.root ∈ s.engine.tree.ancestors m →
    ¬s'.engine.tree.contains m ∧ Table.get? s'.engine.forms m = none ∧
      ∀ i x, s'.engine.subscriptions.subscription? i = some x → x.node ≠ m
  -- the nodes of the other screens, and those of no screen, stay where they are
  kept {n m : NodeId} : n ∈ s'.navigator.roots → n ∈ s.engine.tree.ancestors m →
    s'.engine.tree.ancestors m = s.engine.tree.ancestors m
  stays {m : NodeId} : (∀ top ∈ above, top.root ∉ s.engine.tree.ancestors m) →
    s'.engine.tree.ancestors m = s.engine.tree.ancestors m
  -- with what they hold, except for what is handed over to the screen that is revealed
  global : s'.engine.global = s.engine.global
  holds {m : NodeId} (id : String) : s'.engine.tree.contains m → (m = screen.root → id ≠ handoffId) →
    s'.engine.tree.context? m id = s.engine.tree.context? m id

theorem ReturnedTo.of_report {reports : List Report}
    (h : ReturnedTo (s.report reports) s' above screen below) : ReturnedTo s s' above screen below :=
  ⟨h.current, h.presented, h.dismissed, h.torn, h.kept, h.stays, h.global, h.holds⟩

theorem reveal_eq {navigator : Navigator} (hc : navigator.current? = some screen)
    (s : Session (σ × Transcript)) (removed : List NodeId) (handoff : Handoff) : ∃ handoff',
    ({ s with navigator }.reveal removed handoff).2 =
      { s with
        navigator
        host := removed.foldl s.platform.dismissScreen s.host
        engine := s.engine.revealed removed screen.root handoff' } := by
  cases removed
  case nil => exact ⟨none, rfl⟩
  case cons root removed =>
    refine ⟨handoff, ?_⟩
    simp only [reveal, List.isEmpty_cons, Bool.false_eq_true, if_false, navigator_dismiss, hc]
    rw [handOver_eq, dismiss_eq]
    rfl

theorem returnedTo_reveal (hp : s.platform = p.transcribed) (ha : Arranged s) (hs : s.engine.Sound)
    (hn : s.navigator.presented = ⟨controller, above ++ screen :: below⟩ :: others)
    (handoff : Handoff) : ReturnedTo s
      ({ s with navigator := ⟨⟨controller, screen :: below⟩ :: others⟩ }.reveal
        (above.map Screen.root) handoff).2 above screen below := by
  have hroots : s.navigator.roots = above.map Screen.root ++
      Navigator.roots ⟨⟨controller, screen :: below⟩ :: others⟩ := by
    simp [Navigator.roots, Stack.roots, hn]
  have ht := transcript_dismiss hp (above.map Screen.root)
  rw [dismiss_eq, List.map_map] at ht
  have hc : Navigator.current? ⟨⟨controller, screen :: below⟩ :: others⟩ = some screen := rfl
  obtain ⟨handoff', hr⟩ := reveal_eq hc s (above.map Screen.root) handoff
  rw [hr]
  refine ⟨rfl, ⟨controller, others, hn, rfl⟩, ht, fun htop => ?torn, fun {n m} hn' hm => ?kept,
    fun hm => ?stays, Engine.global_revealed hs, fun _ => Engine.context?_revealed hs⟩
  case torn =>
    exact Engine.leads_revealed.nothing_left hs
      (Engine.not_contains_revealed hs (List.mem_map_of_mem htop))
  case stays => exact (Engine.ancestors_revealed hs).trans (if_neg (by simpa using hm))
  case kept =>
    refine (Engine.ancestors_revealed hs).trans (if_neg ?_)
    rintro ⟨root, hroot, hm'⟩
    -- the node would be below two roots
    have hi {a : NodeId} (hr : a ∈ s.navigator.roots) (ham : a ∈ s.engine.tree.ancestors m) :=
      ha.isRoot hr (hs.forest.contains_of_mem_ancestors ham)
    have hnodup := ha.nodup
    rw [hroots] at hi hnodup
    have he := (hi (List.mem_append_left _ hroot) hm').eq_of_mem_ancestors hs.forest
      (hi (List.mem_append_right _ hn') hm) hm' hm
    exact (List.nodup_append.mp hnodup).2.2 root hroot n hn' he

theorem returnedTo_back (hp : s.platform = p.transcribed) (ha : Arranged s) (hs : s.engine.Sound)
    (hf : s.navigator.FoundIn t (Url.absolute s.engine.baseUrl t) above screen below controller others)
    (handoff : Handoff) :
    ReturnedTo s (s.back (.toView t) handoff).2 above screen below := by
  simp only [back, hf.popped]
  exact returnedTo_reveal hp ha hs hf.presented handoff

theorem back_eq_of_none (s : Session (σ × Transcript)) (handoff : Handoff)
    (hn : s.navigator.popToView t (Url.absolute s.engine.baseUrl t) = none) :
    s.back (.toView t) handoff = (.ok (), s.report [.unknownReturnTarget t]) := by
  simp only [back, hn]

theorem navigate_toView {target : Expression String} {origin : NodeId} {implicit : List Context}
    (ht : target.evaluate (s.resolver origin implicit) = some t) (context : Option NavigationContext) :
    ∃ reports handoff, (∀ x ∈ reports, x.isSilent) ∧
      s.navigate (.back (.toView target) context) origin implicit =
        (s.report reports).back (.toView t) handoff := by
  obtain ⟨reports, hq, he⟩ := s.navigate_eq (.back (.toView target) context) origin implicit
  have hm : (s.move? (s.resolver origin implicit) (.back (.toView target) context)).1 =
      some (.back (.toView t)) := by
    simp only [move?, ht]
  rw [hm] at he
  exact ⟨reports, _, hq, he⟩

end Returning

section Target

variable {allowed : Engine → Engine.Operation → Prop} {h : σ} {global : Value}
variable {baseUrl : Option String}

theorem Proceeds.baseUrl_eq (hb : p.Builds fun _ _ _ => True)
    (hg : Proceeds allowed (start p h global baseUrl) s) : s.engine.baseUrl = baseUrl :=
  (hg.leads hb.transcribed (.start global baseUrl)).baseUrl_eq

-- However a session has proceeded, it goes back
-- 1. to the topmost screen of the current stack whose URL is the target, made absolute,
-- 2. or to the topmost one whose identifier is the target,
-- 3. or not at all, if there is neither, which only the log hears of.
-- 4. Where a screen is left that was opened by the same text there is one with the URL.
theorem returns_to_target (hb : p.Builds fun _ _ _ => True)
    (hg : Proceeds allowed (start p h global baseUrl) s) {target : Expression String}
    {context : Option NavigationContext} {origin : NodeId} {implicit : List Context}
    (ht : target.evaluate (s.resolver origin implicit) = some t)
    (hn : s.navigate (.back (.toView target) context) origin implicit = (r, s')) :
    ((∃ screen ∈ s.navigator.screens, screen.url = some (Url.absolute baseUrl t)) →
      ∃ above screen below,
        Topmost (·.url = some (Url.absolute baseUrl t)) s.navigator.screens above screen below ∧
          ReturnedTo s s' above screen below) ∧
    ((∀ screen ∈ s.navigator.screens, screen.url ≠ some (Url.absolute baseUrl t)) →
      (∃ screen ∈ s.navigator.screens, screen.identifier = some t) →
      ∃ above screen below,
        Topmost (·.identifier = some t) s.navigator.screens above screen below ∧
          ReturnedTo s s' above screen below) ∧
    ((∀ screen ∈ s.navigator.screens,
        screen.url ≠ some (Url.absolute baseUrl t) ∧ screen.identifier ≠ some t) →
      r = .ok () ∧ ∃ reports, (∀ x ∈ reports, x.isSilent) ∧ s' = s.report reports) ∧
    ∀ s₀ s₁ screen, Proceeds allowed (start p h global baseUrl) s₀ → Opens t s₀ s₁ →
      s₁.navigator.current? = some screen → screen ∈ s.navigator.screens →
      ∃ above found below,
        Topmost (·.url = some (Url.absolute baseUrl t)) s.navigator.screens above found below ∧
          ReturnedTo s s' above found below := by
  obtain ⟨hp, hs⟩ := hg.reached hb
  have ha := hg.arranged hb
  have hbase := hg.baseUrl_eq hb
  obtain ⟨reports, handoff, hq, hback⟩ := navigate_toView ht context
  rw [hback] at hn
  have hreturned {above : List Screen} {screen : Screen} {below : List Screen}
      (hf : ∃ controller others, s.navigator.FoundIn t (Url.absolute baseUrl t) above screen below
        controller others) : ReturnedTo s s' above screen below := by
    obtain ⟨controller, others, hf⟩ := hf
    have hr : ReturnedTo (s.report reports) _ above screen below :=
      returnedTo_back (s := s.report reports) hp ⟨ha.filled, ha.nodup, ha.isRoot_or_spent⟩
        (hs.report reports) (hbase ▸ hf) handoff
    rw [hn] at hr
    exact hr.of_report
  have hurl (hx : ∃ screen ∈ s.navigator.screens, screen.url = some (Url.absolute baseUrl t)) :
      ∃ above screen below,
        Topmost (·.url = some (Url.absolute baseUrl t)) s.navigator.screens above screen below ∧
          ReturnedTo s s' above screen below := by
    obtain ⟨above, screen, below, htop⟩ := Navigator.exists_topmost hx
    exact ⟨above, screen, below, htop, hreturned (Navigator.exists_foundIn_of_url htop)⟩
  refine ⟨hurl, fun hu hx => ?identifier, fun hno => ?nowhere, fun s₀ s₁ screen hg₀ ho hc hm => ?opened⟩
  case identifier =>
    obtain ⟨above, screen, below, htop⟩ := Navigator.exists_topmost hx
    exact ⟨above, screen, below, htop, hreturned (Navigator.exists_foundIn_of_identifier hu htop)⟩
  case nowhere =>
    have hpop : s.navigator.popToView t (Url.absolute s.engine.baseUrl t) = none :=
      Navigator.popToView_eq_none (fun screen hm => hbase ▸ (hno screen hm).1)
        fun screen hm => (hno screen hm).2
    rw [back_eq_of_none (s.report reports) handoff hpop, report_report] at hn
    cases hn
    refine ⟨rfl, _, fun x hx => (List.mem_append.mp hx).elim (hq x) fun hx => ?_, rfl⟩
    exact List.mem_singleton.mp hx ▸ rfl
  case opened =>
    have hu := url_of_opens ho hc
    rw [hg₀.baseUrl_eq hb] at hu
    exact hurl ⟨screen, hm, hu⟩

section Examples

def remote (url : String) : Route :=
  .remote { url := .value url }

def welcomed : Session (Unit × Transcript) :=
  (start fragile () .null (some "https://example.com/")).apply (.launch (remote "/home"))

def touring : Session (Unit × Transcript) :=
  welcomed.apply (.execute [.navigate (.present .pushView (remote "/details") none)] ⟨0, 0⟩ none)

theorem touring_returns :
    ∃ found, (touring.navigate (.back (.toView (.value "/home")) none) ⟨1, 0⟩ []).2.navigator.current? =
      some found ∧ found.url = some "https://example.com/home" := by
  have hc : Course (fun _ _ => True) (start fragile () .null (some "https://example.com/")) touring :=
    .tail (.single ⟨.launch (remote "/home"), trivial, rfl⟩) ⟨.execute _ _ _, trivial, rfl⟩
  have hn : touring.navigate (.back (.toView (.value "/home")) none) ⟨1, 0⟩ [] =
    (.ok (), (touring.navigate (.back (.toView (.value "/home")) none) ⟨1, 0⟩ []).2) := rfl
  have hl : (start fragile () .null (some "https://example.com/")).launch (remote "/home") =
    (.ok ⟨0, 0⟩, welcomed) := rfl
  obtain ⟨-, -, -, ho⟩ := returns_to_target (fragile_builds fun _ => trivial) hc.proceeds rfl hn
  obtain ⟨_, found, _, htop, hr⟩ := ho _ welcomed ⟨some "https://example.com/home", none, ⟨0, 0⟩⟩ .refl
    (.launch rfl hl) rfl (by decide)
  exact ⟨found, hr.current, htop.holds⟩

end Examples

end Target

end Session

end BindingEngine
