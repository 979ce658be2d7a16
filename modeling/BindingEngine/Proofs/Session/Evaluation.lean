import BindingEngine.Proofs.Subscription.Propagation
import BindingEngine.Session.Execution

namespace BindingEngine

section Silence

variable {α : Type} [Attribute α] {resolve : Resolver}

theorem Expression.isSilent_of_mem {x : Expression α} {r : Report} (h : r ∈ x.reports resolve) :
    r.isSilent := by
  simp only [Expression.reports, List.mem_append, List.mem_map] at h
  rcases h with ⟨_, _, rfl⟩ | h
  case inl => rfl
  case inr =>
    split at h
    case isTrue => contradiction
    case isFalse => rw [List.mem_singleton.mp h]; rfl

theorem Data.isSilent_of_mem {d : Data} {r : Report} (h : r ∈ d.reports resolve) : r.isSilent := by
  obtain ⟨_, _, rfl⟩ := List.mem_map.mp h
  rfl

end Silence

def Navigation.handoff (n : Navigation) (resolve : Resolver) : Handoff :=
  n.context?.map fun c => (c.path.getD [], c.value.evaluate resolve)

namespace Session

variable {σ : Type} {s : Session σ} {resolve : Resolver} {n : Navigation} {move : Move}

inductive Evaluated : Navigation → Move → Prop
  | openUrl (url : Expression String) (text : String) : Evaluated (.openUrl url) (.openUrl text)
  | openNative (route : Expression String) (data : Headers) (screen : NativeScreen) :
    Evaluated (.openNative route data screen.resetApplication) (.openNative screen)
  | present (how : Presentation) (route : Route) (context : Option NavigationContext)
    (destination : Destination) : Evaluated (.present how route context) (.present how destination)
  | back (how : Return (Expression String)) (context : Option NavigationContext)
    (how' : Return String) : Evaluated (.back how context) (.back how')

theorem Evaluated.resets_iff (h : Evaluated n move) :
    (∃ route data, n = .openNative route data true) ↔
      ∃ screen, move = .openNative screen ∧ screen.resetApplication := by
  cases h
  case openNative route data screen =>
    constructor
    case mp =>
      rintro ⟨_, _, he⟩
      exact ⟨screen, rfl, (Navigation.openNative.inj he).2.2⟩
    case mpr =>
      rintro ⟨_, he, hr⟩
      cases he
      exact ⟨route, data, by rw [hr]⟩
  all_goals simp

theorem Evaluated.back_iff (h : Evaluated n move) :
    (∃ how context, n = .back how context) ↔ ∃ how, move = .back how := by
  cases h <;> simp

theorem isSilent_of_mem_destination? {route : Route} {r : Report}
    (h : r ∈ (s.destination? route resolve).2) : r.isSilent := by
  cases route
  case screen => contradiction
  case remote remote =>
    simp only [destination?, List.mem_append] at h
    rcases h with h | h
    case inl => exact Expression.isSilent_of_mem h
    case inr =>
      split at h
      case isFalse => contradiction
      case isTrue =>
        split at h
        case h_1 => exact Data.isSilent_of_mem h
        case h_2 => contradiction

theorem evaluated_of_move? (h : (s.move? resolve n).1 = some move) : Evaluated n move := by
  cases n
  case openUrl url =>
    simp only [move?] at h
    split at h
    case h_1 => contradiction
    case h_2 text _ => cases h; exact .openUrl url text
  case openNative route data reset =>
    simp only [move?] at h
    split at h
    case h_1 => contradiction
    case h_2 text _ =>
      split at h
      case h_1 => contradiction
      case h_2 args screen _ => cases h; exact .openNative route data ⟨screen, _, reset⟩
  case present how route context =>
    simp only [move?] at h
    split at h
    case h_1 => contradiction
    case h_2 destination _ _ => cases h; exact .present how route context destination
  case back how context =>
    cases how
    case stack => cases h; exact .back .stack context .stack
    case view => cases h; exact .back .view context .view
    case toView target =>
      simp only [move?] at h
      split at h
      case h_1 => contradiction
      case h_2 text _ => cases h; exact .back (.toView target) context (.toView text)

theorem isSilent_of_mem_move? {r : Report} (h : r ∈ (s.move? resolve n).2) : r.isSilent := by
  have hx {α : Type} [Attribute α] {x : Expression α} {m : Report}
      (h : r ∈ x.reports resolve ++ [m]) (hm : m.isSilent) : r.isSilent := by
    rcases List.mem_append.mp h with h | h
    case inl => exact Expression.isSilent_of_mem h
    case inr => exact List.mem_singleton.mp h ▸ hm
  cases n
  case openUrl url =>
    simp only [move?] at h
    split at h
    case h_1 => exact hx h rfl
    case h_2 => exact Expression.isSilent_of_mem h
  case openNative route data reset =>
    simp only [move?] at h
    split at h
    case h_1 => exact hx h rfl
    case h_2 =>
      split at h
      case h_1 => exact hx h rfl
      case h_2 => exact Expression.isSilent_of_mem h
  case present how route context =>
    simp only [move?] at h
    have hd (hr : r ∈ (s.destination? route resolve).2) := isSilent_of_mem_destination? hr
    split at h
    case h_1 reports he =>
      rw [he] at hd
      rcases List.mem_append.mp h with h | h
      case inl => exact hd h
      case inr =>
        rw [List.mem_singleton.mp h]
        rfl
    case h_2 he =>
      rw [he] at hd
      exact hd h
  case back how context =>
    cases how
    case stack => contradiction
    case view => contradiction
    case toView target =>
      simp only [move?] at h
      split at h
      case h_1 => exact hx h rfl
      case h_2 => exact Expression.isSilent_of_mem h

theorem report_report (s : Session σ) (reports more : List Report) :
    (s.report reports).report more = s.report (reports ++ more) := by
  simp [report, Engine.report, List.append_assoc]

theorem move?_report (s : Session σ) (reports : List Report) :
    (s.report reports).move? resolve n = s.move? resolve n :=
  rfl

theorem navigate_eq (s : Session σ) (n : Navigation) (origin : NodeId) (implicit : List Context) :
    ∃ reports, (∀ r ∈ reports, r.isSilent) ∧
      s.navigate n origin implicit = match (s.move? (s.resolver origin implicit) n).1 with
        | none => (.ok (), s.report reports)
        | some move => (s.report reports).perform (n.handoff (s.resolver origin implicit)) move := by
  have hq : ∀ r ∈ (n.context?.map fun c => c.value.reports (s.resolver origin implicit)).getD [],
      r.isSilent := by
    cases n.context?
    case none => simp
    case some c => exact fun r hr => Data.isSilent_of_mem hr
  have hm : ∀ r ∈ (s.move? (s.resolver origin implicit) n).2, r.isSilent :=
    fun r hr => isSilent_of_mem_move? hr
  simp only [navigate, report_report, move?_report]
  generalize s.move? (s.resolver origin implicit) n = moved at hm ⊢
  refine ⟨_ ++ moved.2, fun r hr => (List.mem_append.mp hr).elim (hq r) (hm r), ?_⟩
  obtain ⟨_ | move, reports⟩ := moved <;> rfl

theorem navigate_cases (s : Session σ) (n : Navigation) (origin : NodeId)
    (implicit : List Context) : ∃ reports, (∀ r ∈ reports, r.isSilent) ∧
      (s.navigate n origin implicit = (.ok (), s.report reports) ∨
        ∃ handoff move, Evaluated n move ∧
          s.navigate n origin implicit = (s.report reports).perform handoff move) := by
  obtain ⟨reports, hr, he⟩ := s.navigate_eq n origin implicit
  refine ⟨reports, hr, ?_⟩
  cases hm : (s.move? (s.resolver origin implicit) n).1
  case none => exact .inl (by rw [he, hm])
  case some move => exact .inr ⟨_, move, evaluated_of_move? hm, by rw [he, hm]⟩

end Session

end BindingEngine
