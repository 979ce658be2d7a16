import BindingEngine.Proofs.Session.Running

namespace BindingEngine.Session

variable {σ : Type}

-- An action starts once. It does not start behind a failure, nor in a list whose node was gone behind
-- an action of it.
def Moment.Precedes : Moment σ → Moment σ → Prop
  | started t _, started u _ => t.place ≠ u.place
  | stopped t r s, started u _ =>
    ¬isFatal r ∧ (s.engine.tree.contains t.origin ∨ u.list ≠ t.list)
  | _, stopped _ _ _ => True

def Turn.Ran (t : Turn) (implicit : List Context) (moments : List (Moment σ)) (s : Session σ)
    (r : Except Error Unit) (s' : Session σ) : Prop :=
  ∃ depth inner, Executes implicit depth t.place t.origin (.action t.action)
      (s.report [.running t.action.kindName]) inner r s' ∧
    Moment.span t s inner r s' <:+: moments

-- An action starts while its node is live, and it stops with the result that it has. Unless it failed
-- the action after it starts at once if the node is live then.
def Moment.Accounted (implicit : List Context) (moments : List (Moment σ)) : Moment σ → Prop
  | started t s => s.engine.tree.contains t.origin ∧ ∃ r s', t.Ran implicit moments s r s'
  | stopped t r s' => (∃ s, t.Ran implicit moments s r s') ∧
    (s'.engine.tree.contains t.origin → ¬isFatal r → ∀ action rest, t.rest = action :: rest →
      [stopped t r s', started (t.next action rest) (s'.noting t.action r)] <:+: moments)

def Work.start : Work → Nat
  | .action _ => 0
  | .list position _ => position

-- What happens in a list from a position on, or within an action, and the result that it leads to.
structure Orderly (implicit : List Context) (list : List Nat) (position : Nat)
    (moments : List (Moment σ)) (result : Except Error Unit) : Prop where
  place {m : Moment σ} : m ∈ moments → ∃ i, position ≤ i ∧ i :: list <:+ m.turn.place
  accounted {m : Moment σ} : m ∈ moments → m.Accounted implicit moments
  ordered : moments.Pairwise Moment.Precedes
  fails {t : Turn} {r : Except Error Unit} {s : Session σ} : .stopped t r s ∈ moments →
    isFatal r → result = r

variable {list : List Nat} {position i j : Nat} {origin : NodeId} {implicit : List Context}
variable {s s' : Session σ} {r r' : Except Error Unit} {t : Turn} {m m' : Moment σ}
variable {inner later whole : List (Moment σ)}

theorem Turn.Ran.mono (h : inner <:+: whole) (hr : t.Ran implicit inner s r s') :
    t.Ran implicit whole s r s' := by
  obtain ⟨depth, within, hx, hs⟩ := hr
  exact ⟨depth, within, hx, hs.trans h⟩

theorem Moment.Accounted.mono (h : inner <:+: whole) (hm : m.Accounted implicit inner) :
    m.Accounted implicit whole := by
  cases m
  case started =>
    obtain ⟨ho, r, s', hr⟩ := hm
    exact ⟨ho, r, s', hr.mono h⟩
  case stopped =>
    obtain ⟨⟨s, hr⟩, hn⟩ := hm
    exact ⟨⟨s, hr.mono h⟩, fun ho hf action rest he => (hn ho hf action rest he).trans h⟩

theorem Orderly.nil : Orderly (σ := σ) implicit list position [] r where
  place h := absurd h List.not_mem_nil
  accounted h := absurd h List.not_mem_nil
  ordered := .nil
  fails h := absurd h List.not_mem_nil

section Turn

theorem eq_of_cons_suffix {ds : List Nat} (h : i :: list <:+ ds) (h' : j :: list <:+ ds) : i = j := by
  have hs : i :: list <:+ j :: list := List.suffix_of_suffix_length_le h h' (by simp)
  exact (List.cons.inj (hs.eq_of_length (by simp))).1

variable (hi : Orderly implicit t.place 0 inner r)
variable (hl : Orderly implicit t.list (t.position + 1) later r')

section Places

include hi

theorem Orderly.suffix (hm : m ∈ inner) : t.place <:+ m.turn.list := by
  obtain ⟨i, _, hs⟩ := hi.place hm
  rcases List.suffix_cons_iff.mp hs with he | hs
  case inl => exact (List.cons.inj he).2 ▸ List.suffix_refl _
  case inr => exact (List.suffix_cons i _).trans hs

theorem Orderly.place_ne_of_within (hm : m ∈ inner) : t.place ≠ m.turn.place := by
  intro he
  have hs : m.turn.place <:+ m.turn.list := he ▸ hi.suffix hm
  exact absurd hs.length_le (by simp [Turn.place])

end Places

include hl

theorem Orderly.place_ne_of_later (hm : m ∈ later) : t.place ≠ m.turn.place := by
  intro he
  obtain ⟨i, hp, hs⟩ := hl.place hm
  have hs' : t.place <:+ m.turn.place := he ▸ List.suffix_refl _
  exact absurd (eq_of_cons_suffix hs' hs) (Nat.ne_of_lt hp)

include hi

theorem Orderly.list_ne (hm : m ∈ inner) (hm' : m' ∈ later) : m'.turn.list ≠ m.turn.list := by
  intro he
  obtain ⟨i, hp, hs⟩ := hl.place hm'
  have hs' : t.place <:+ m'.turn.place := (he ▸ hi.suffix hm).trans (List.suffix_cons _ _)
  exact absurd (eq_of_cons_suffix hs' hs) (Nat.ne_of_lt hp)

theorem precedes_of_within (hf : isFatal r → later = []) (hm : m ∈ inner) (hm' : m' ∈ later) :
    m.Precedes m' := by
  have hne := hi.list_ne hl hm hm'
  cases m'
  case stopped => cases m <;> trivial
  case started =>
    cases m
    case started => exact fun he => hne (List.cons.inj he).2.symm
    case stopped =>
      refine ⟨fun h => List.ne_nil_of_mem hm' (hf ?_), .inr hne⟩
      rwa [hi.fails hm h]

theorem ordered_turn (hf : isFatal r → later = [])
    (hd : ¬s'.engine.tree.contains t.origin → later = []) :
    (Moment.started t s :: (inner ++ .stopped t r s' :: later)).Pairwise Moment.Precedes := by
  have hstart {m : Moment σ} (hp : t.place ≠ m.turn.place) : (Moment.started t s).Precedes m := by
    cases m
    case started => exact hp
    case stopped => trivial
  have hstop {m : Moment σ} (hm : m ∈ later) : (Moment.stopped t r s').Precedes m := by
    have hne := List.ne_nil_of_mem hm
    cases m
    case started => exact ⟨fun h => hne (hf h), .inl (Decidable.not_not.mp fun h => hne (hd h))⟩
    case stopped => trivial
  rw [List.pairwise_cons, List.pairwise_append, List.pairwise_cons]
  refine ⟨fun m hm => ?_, hi.ordered, ⟨fun m => hstop, hl.ordered⟩, fun m hm m' hm' => ?_⟩
  case refine_1 =>
    rcases List.mem_append.mp hm with hm | hm
    case inl => exact hstart (hi.place_ne_of_within hm)
    case inr =>
      rcases List.mem_cons.mp hm with rfl | hm
      case inl => trivial
      case inr => exact hstart (hl.place_ne_of_later hm)
  case refine_2 =>
    rcases List.mem_cons.mp hm' with rfl | hm'
    case inl => cases m <;> trivial
    case inr => exact precedes_of_within hi hl hf hm hm'

theorem Orderly.turn {depth : Nat} (ho : s.engine.tree.contains t.origin)
    (hx : Executes implicit depth t.place t.origin (.action t.action)
      (s.report [.running t.action.kindName]) inner r s')
    (hf : isFatal r → later = [] ∧ r' = r) (hd : ¬s'.engine.tree.contains t.origin → later = [])
    (hn : s'.engine.tree.contains t.origin → ¬isFatal r → ∀ action rest, t.rest = action :: rest →
      ∃ later', later = .started (t.next action rest) (s'.noting t.action r) :: later') :
    Orderly implicit t.list t.position (Moment.span t s inner r s' ++ later) r' := by
  have hw : Moment.span t s inner r s' ++ later = .started t s :: (inner ++ .stopped t r s' :: later) := by
    simp [Moment.span]
  have hordered := ordered_turn (s := s) hi hl (fun h => (hf h).1) hd
  have hran : t.Ran implicit (Moment.span t s inner r s' ++ later) s r s' := ⟨depth, inner, hx, [], later, rfl⟩
  rw [hw] at hran ⊢
  generalize hw : Moment.started t s :: (inner ++ .stopped t r s' :: later) = whole at hordered hran ⊢
  have hmem {m : Moment σ} : m ∈ whole ↔
      m = .started t s ∨ m ∈ inner ∨ m = .stopped t r s' ∨ m ∈ later := by
    simp [← hw]
  have hinner : inner <:+: whole := ⟨[.started t s], .stopped t r s' :: later, by simp [← hw]⟩
  have hlater : later <:+: whole := ⟨.started t s :: inner ++ [.stopped t r s'], [], by simp [← hw]⟩
  refine ⟨fun hm => ?place, fun hm => ?accounted, hordered, fun hm hfr => ?fails⟩
  case place =>
    rcases hmem.mp hm with rfl | hm | rfl | hm
    case inl => exact ⟨t.position, Nat.le_refl _, List.suffix_refl _⟩
    case inr.inl =>
      exact ⟨t.position, Nat.le_refl _, (hi.suffix hm).trans (List.suffix_cons _ _)⟩
    case inr.inr.inl => exact ⟨t.position, Nat.le_refl _, List.suffix_refl _⟩
    case inr.inr.inr =>
      obtain ⟨i, hp, hs⟩ := hl.place hm
      exact ⟨i, Nat.le_of_succ_le hp, hs⟩
  case accounted =>
    rcases hmem.mp hm with rfl | hm | rfl | hm
    case inl => exact ⟨ho, r, s', hran⟩
    case inr.inl => exact (hi.accounted hm).mono hinner
    case inr.inr.inl =>
      refine ⟨⟨s, hran⟩, fun hc hnf action rest hrest => ?_⟩
      obtain ⟨later', he⟩ := hn hc hnf action rest hrest
      exact ⟨.started t s :: inner, later', by simp [← hw, he]⟩
    case inr.inr.inr => exact (hl.accounted hm).mono hlater
  case fails =>
    rcases hmem.mp hm with he | hm | he | hm
    case inl => cases he
    case inr.inl =>
      have he := hi.fails hm hfr
      exact (hf (he ▸ hfr)).2.trans he
    case inr.inr.inl =>
      obtain ⟨rfl, rfl, rfl⟩ := Moment.stopped.inj he
      exact (hf hfr).2
    case inr.inr.inr => exact hl.fails hm hfr

end Turn

namespace Executes

variable {depth : Nat} {action : Action} {actions : List Action} {moments : List (Moment σ)}

theorem eq_nil_of_not_contains (ho : ¬s.engine.tree.contains origin)
    (h : Executes implicit depth list origin (.list position actions) s moments r s') : moments = [] := by
  cases h
  case done => rfl
  case tornDown => rfl
  case failed => contradiction
  case next => contradiction

theorem begins (ho : s.engine.tree.contains origin)
    (h : Executes implicit depth list origin (.list position (action :: actions)) s moments r s') :
    ∃ later, moments = .started ⟨list, position, origin, action, actions⟩ s :: later := by
  cases h
  case tornDown => contradiction
  case failed => exact ⟨_, rfl⟩
  case next => exact ⟨_, rfl⟩

theorem isFatal_of_error {e : Error}
    (h : Executes implicit depth list origin (.list position actions) s moments (.error e) s') :
    isFatal (.error e) ∧ ∃ t s', .stopped t (.error e) s' ∈ moments := by
  induction actions generalizing position s moments
  case nil => cases h
  case cons action actions hi =>
    cases h
    case failed hf _ =>
      exact ⟨hf, ⟨list, position, origin, action, actions⟩, s', by simp [Moment.span]⟩
    case next h =>
      obtain ⟨hf, t, s', hm⟩ := hi h
      exact ⟨hf, t, s', List.mem_append_right _ hm⟩

theorem tree_noting : (s.noting action r).engine.tree = s.engine.tree := by
  cases r <;> rfl

theorem orderly {w : Work} (h : Executes implicit depth list origin w s moments r s') :
    Orderly implicit list w.start moments r := by
  induction h
  case decided hi => exact hi
  case submitted hi => exact hi
  case failed position origin s s' action rest inner r ho hx hf hi =>
    have h := hi.turn (t := ⟨_, position, origin, action, rest⟩) .nil ho hx (fun _ => ⟨rfl, rfl⟩)
      (fun _ => rfl) fun _ hnf => absurd hf hnf
    rwa [List.append_nil] at h
  case next position origin s s' s'' action rest inner later r r' ho hx hf hx' hi hl =>
    have ht : (s'.noting action r).engine.tree = s'.engine.tree := tree_noting
    refine hi.turn (t := ⟨_, position, origin, action, rest⟩) hl ho hx (fun h => absurd h hf)
      (fun hd => ?dead) fun hc _ action' rest' hrest => ?next
    case dead => exact hx'.eq_nil_of_not_contains (ht ▸ hd)
    case next =>
      subst hrest
      exact hx'.begins (ht ▸ hc)
  all_goals exact .nil

end Executes

end BindingEngine.Session
