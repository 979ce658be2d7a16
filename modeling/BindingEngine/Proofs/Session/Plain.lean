import BindingEngine.Proofs.Session.Course
import BindingEngine.Proofs.Session.Running

namespace BindingEngine.Session

variable {σ : Type} {p : Platform σ} {s : Session (σ × Transcript)}

def plain (p : Platform σ) (s : Session (σ × Transcript)) : Session σ where
  platform := p
  host := s.host.1
  engine := s.engine
  navigator := s.navigator
  router := s.router
  pending := s.pending
  nextRequest := s.nextRequest

@[simp]
theorem plain_engine : (s.plain p).engine = s.engine := rfl

@[simp]
theorem plain_navigator : (s.plain p).navigator = s.navigator := rfl

@[simp]
theorem plain_router : (s.plain p).router = s.router := rfl

@[simp]
theorem plain_pending : (s.plain p).pending = s.pending := rfl

@[simp]
theorem plain_report (reports : List Report) :
    (s.plain p).report reports = (s.report reports).plain p := rfl

@[simp]
theorem plain_resolver (origin : NodeId) (implicit : List Context) :
    (s.plain p).resolver origin implicit = s.resolver origin implicit := rfl

def leave {τ : Type} (s : Session τ) (screen : NativeScreen) : Step τ :=
  let (r, host) := s.platform.openNative s.host screen
  (r.mapError Error.ofPlatform, { s with host })

theorem perform_openNative {τ : Type} (s : Session τ) (handoff : Handoff) (screen : NativeScreen) :
    s.perform handoff (.openNative screen) =
      (if screen.resetApplication then
        { s.report [.openingNative screen.screen] with navigator := {} }.dismiss s.navigator.roots
        else s.report [.openingNative screen.screen]).leave screen := rfl

theorem plain_handOver (root : NodeId) (handoff : Handoff) :
    (s.plain p).handOver root handoff = (s.handOver root handoff).map id (plain p) := by
  cases handoff <;> rfl

section Platform

variable (hp : s.platform = p.transcribed)

include hp

theorem plain_dismiss (roots : List NodeId) :
    (s.plain p).dismiss roots = (s.dismiss roots).plain p := by
  induction roots generalizing s
  case nil => rfl
  case cons root roots hi =>
    refine Eq.trans ?_ (hi (s := { s with
      host := s.platform.dismissScreen s.host root
      engine := (s.engine.destroy root).2 }) hp)
    simp only [dismiss, List.foldl_cons, plain, hp]
    rfl

theorem plain_build (root : NodeId) (d : Destination) :
    (s.plain p).build root d = (s.build root d).map id (plain p) := by
  simp only [build, hp]
  rfl

theorem plain_prepare (root : NodeId) (d : Destination) (handoff : Handoff) :
    (s.plain p).prepare root d handoff = (s.prepare root d handoff).map id (plain p) := by
  have hp' : (s.handOver root handoff).2.platform = p.transcribed := by
    rw [handOver_eq]
    exact hp
  simp only [prepare, plain_handOver]
  generalize s.handOver root handoff = handed at hp' ⊢
  obtain ⟨r, s'⟩ := handed
  cases r
  case error => rfl
  case ok => exact plain_build hp' root d

theorem plain_present (d : Destination) (handoff : Handoff) :
    (s.plain p).present d handoff = (s.present d handoff).map id (plain p) := by
  have hprep := plain_prepare (s := { s with engine := s.engine.createRoot.2 }) hp
    s.engine.createRoot.1 d handoff
  unfold present
  simp only [plain] at hprep ⊢
  rw [hprep]
  generalize prepare _ _ _ _ = prepared
  obtain ⟨r, s'⟩ := prepared
  cases r <;> rfl

theorem plain_display (screen : Screen) (how : Presentation) :
    (s.plain p).display screen how = (s.display screen how).plain p := by
  have hd (navigator : Navigator) (roots : List NodeId) :
      { s.plain p with navigator }.dismiss roots = ({ s with navigator }.dismiss roots).plain p :=
    plain_dismiss (s := { s with navigator }) hp roots
  cases how
  case resetApplication => exact hd _ _
  case resetStack => exact hd _ _
  case pushStack => rfl
  case pushView => rfl

theorem plain_reveal (removed : List NodeId) (handoff : Handoff) :
    (s.plain p).reveal removed handoff = (s.reveal removed handoff).map id (plain p) := by
  unfold reveal
  by_cases hr : removed.isEmpty
  case pos =>
    rw [if_pos hr, if_pos hr]
    rfl
  case neg =>
    simp only [hr, Bool.false_eq_true, if_false, plain_dismiss hp, plain_navigator]
    generalize s.dismiss removed = s'
    cases s'.navigator.current?
    case none => rfl
    case some screen => exact plain_handOver screen.root handoff

theorem plain_back (how : Return String) (handoff : Handoff) :
    (s.plain p).back how handoff = (s.back how handoff).map id (plain p) := by
  have hr (s' : Session (σ × Transcript)) (hp' : s'.platform = p.transcribed)
      (removed : List NodeId) (navigator : Navigator) :
      { s'.plain p with navigator }.reveal removed handoff =
        ({ s' with navigator }.reveal removed handoff).map id (plain p) :=
    plain_reveal (s := { s' with navigator }) hp' removed handoff
  cases how
  case stack =>
    simp only [back]
    rw [plain_navigator]
    split
    case isTrue => exact hr (s.report _) hp _ _
    case isFalse => exact hr s hp _ _
  case view =>
    simp only [back]
    rw [plain_navigator]
    split
    case isTrue => exact hr s hp _ _
    case isFalse =>
      split
      case isTrue => exact hr (s.report _) hp _ _
      case isFalse => exact hr s hp _ _
  case toView target =>
    simp only [back, plain_navigator, plain_engine]
    cases s.navigator.popToView target (Url.absolute s.engine.baseUrl target)
    case none => rfl
    case some popped => exact hr s hp popped.1 popped.2

theorem plain_leave (screen : NativeScreen) :
    (s.plain p).leave screen = (s.leave screen).map id (plain p) := by
  simp only [leave, hp]
  rfl

theorem plain_perform (handoff : Handoff) (move : Move) :
    (s.plain p).perform handoff move = (s.perform handoff move).map id (plain p) := by
  cases move
  case openUrl url =>
    simp only [perform, report, hp]
    rfl
  case openNative screen =>
    rw [perform_openNative, perform_openNative]
    split
    case isTrue =>
      have hd := plain_dismiss (s := { s.report [.openingNative screen.screen] with navigator := {} })
        hp s.navigator.roots
      refine (congrArg (leave · screen) hd).trans (plain_leave (p := p) ?_ screen)
      exact platform_dismiss.trans hp
    case isFalse => exact plain_leave (s := s.report [.openingNative screen.screen]) hp screen
  case present how d =>
    simp only [perform, plain_present hp]
    obtain ⟨⟨r, s'⟩, hd⟩ : ∃ presented, s.present d handoff = presented := ⟨_, rfl⟩
    rw [hd]
    cases r
    case error => rfl
    case ok screen =>
      exact congrArg (Prod.mk _) (plain_display ((platform_present hd).trans hp) screen how)
  case back how => exact plain_back hp how handoff

omit hp in
theorem plain_move? (resolve : Resolver) (n : Navigation) :
    (s.plain p).move? resolve n = s.move? resolve n := by
  cases n
  case back how context => cases how <;> rfl
  all_goals rfl

theorem plain_navigate (n : Navigation) (origin : NodeId) (implicit : List Context) :
    (s.plain p).navigate n origin implicit = (s.navigate n origin implicit).map id (plain p) := by
  simp only [navigate, plain_resolver, plain_report, plain_move?]
  generalize move? _ _ n = moved
  obtain ⟨move, reports⟩ := moved
  cases move
  case none => rfl
  case some move => exact plain_perform (s := (s.report _).report reports) hp _ move

theorem plain_launch (route : Route) :
    (s.plain p).launch route = (s.launch route).map id (plain p) := by
  have hd (resolve : Resolver) : (s.plain p).destination? route resolve =
      s.destination? route resolve := rfl
  simp only [launch, hd, plain_engine, plain_report]
  generalize destination? _ _ _ = found
  obtain ⟨destination, reports⟩ := found
  cases destination
  case none => rfl
  case some destination =>
    have hs := plain_present (s := s.report reports) hp destination none
    obtain ⟨⟨r, s'⟩, hd⟩ : ∃ presented, (s.report reports).present destination none = presented :=
      ⟨_, rfl⟩
    simp only [hs, hd]
    cases r
    case error => rfl
    case ok screen =>
      exact congrArg (Prod.mk _) (plain_display ((platform_present hd).trans hp) screen _)

theorem plain_send (request : Request) (pending : Pending) :
    (s.plain p).send request pending = (s.send request pending).map id (plain p) := by
  obtain ⟨⟨r, h⟩, hr⟩ : ∃ sent, p.sendRequest s.host.1 s.nextRequest request = sent := ⟨_, rfl⟩
  simp only [send, report, hp, plain, Platform.transcribed, hr]
  cases r <;> rfl

end Platform

section Execution

variable {submit' : NodeId → List Context → Session σ → Step σ}
variable {submit : NodeId → List Context → Session (σ × Transcript) → Step (σ × Transcript)}
variable {origin : NodeId} {implicit : List Context}

mutual

theorem plain_run (hg : ∀ n implicit s, Proceeds (fun _ _ => True) s (submit n implicit s).2)
    (hs : ∀ n implicit s, s.platform = p.transcribed →
      submit' n implicit (s.plain p) = (submit n implicit s).map id (plain p)) :
    (action : Action) → (s : Session (σ × Transcript)) → s.platform = p.transcribed →
    run submit' origin implicit action (s.plain p) =
      (run submit origin implicit action s).map id (plain p)
  | .setContext id path value, s, hp => by
    rw [run, run]
    rfl
  | .condition test onTrue onFalse, s, hp => by
    simp only [run, plain_resolver, plain_report]
    cases test.evaluate (s.resolver origin implicit)
    case none => rfl
    case some outcome =>
      cases outcome
      case true => exact plain_runAll hg hs onTrue (s.report _) hp
      case false => exact plain_runAll hg hs onFalse (s.report _) hp
  | .sendRequest url method headers data onSuccess onError onFinish, s, hp => by
    have hr : (s.plain p).request? url method headers data ((s.plain p).resolver origin implicit) =
      s.request? url method headers data (s.resolver origin implicit) := rfl
    rw [run, run, hr]
    generalize s.request? url method headers data (s.resolver origin implicit) = asked
    obtain ⟨request, reports⟩ := asked
    cases request
    case none => rfl
    case some request => exact plain_send (s := s.report reports) hp request _
  | .navigate n, s, hp => by
    rw [run, run]
    exact plain_navigate hp n origin implicit
  | .submitForm, s, hp => by
    rw [run, run]
    exact hs origin implicit s hp

theorem plain_runAll (hg : ∀ n implicit s, Proceeds (fun _ _ => True) s (submit n implicit s).2)
    (hs : ∀ n implicit s, s.platform = p.transcribed →
      submit' n implicit (s.plain p) = (submit n implicit s).map id (plain p)) :
    (actions : List Action) → (s : Session (σ × Transcript)) → s.platform = p.transcribed →
    runAll submit' origin implicit actions (s.plain p) =
      (runAll submit origin implicit actions s).map id (plain p)
  | [], s, hp => by
    rw [runAll, runAll]
    rfl
  | action :: actions, s, hp => by
    have hr := plain_run hg hs action (s.report [.running action.kindName]) hp
    rw [runAll, runAll, plain_engine, plain_report, plain_report, hr]
    split
    case isFalse => rfl
    case isTrue ho =>
      have hp' : (run submit origin implicit action (s.report [.running action.kindName])).2.platform =
        s.platform := (proceeds_run hg action (s.report [.running action.kindName]) ho).platform_eq
      generalize run submit origin implicit action (s.report [.running action.kindName]) = ran at hp' ⊢
      obtain ⟨r, s'⟩ := ran
      cases r
      case ok => exact plain_runAll hg hs actions s' (hp'.trans hp)
      case error error =>
        simp only [Prod.map, id]
        split
        case isTrue => exact plain_runAll hg hs actions (s'.report _) (hp'.trans hp)
        case isFalse => rfl

end

end Execution

theorem plain_submit (depth : Nat) (n : NodeId) (implicit : List Context)
    (s : Session (σ × Transcript)) (hp : s.platform = p.transcribed) :
    submit depth n implicit (s.plain p) = (submit depth n implicit s).map id (plain p) := by
  induction depth generalizing n implicit s
  case zero => rfl
  case succ depth hi =>
    rw [submit, submit, plain_engine]
    split
    case h_1 => rfl
    case h_2 node form _ =>
      obtain ⟨⟨valid, h⟩, hv⟩ : ∃ v, p.validateForm s.host.1 s.engine node = v := ⟨_, rfl⟩
      have hv' : s.platform.validateForm s.host s.engine node =
          (valid, h, s.host.2 ++ [.validated node]) := by
        rw [hp]
        simp only [Platform.transcribed, hv]
      have hr (actions : List Action) (report : Report) :
          runAll (submit depth) node implicit actions
            (({ s with host := (h, s.host.2 ++ [Exchange.validated node]) }.report [report]).plain p) =
          (runAll (submit depth) node implicit actions
            ({ s with host := (h, s.host.2 ++ [Exchange.validated node]) }.report [report])).map id (plain p) :=
        plain_runAll (proceeds_submit depth) hi actions _ hp
      simp only [hv', plain, hv]
      split
      case isTrue => exact hr form.onSubmit _
      case isFalse => exact hr form.onValidationError _

section Asking

variable (hp : s.platform = p.transcribed)

include hp

theorem plain_runActions (actions : List Action) (origin : NodeId) (implicit : List Context)
    (depth : Nat) : (s.plain p).runActions actions origin implicit depth =
      (s.runActions actions origin implicit depth).map id (plain p) :=
  plain_runAll (proceeds_submit depth) (plain_submit depth) actions s hp

theorem plain_execute (actions : List Action) (origin : NodeId) (event : Option Event) (depth : Nat) :
    (s.plain p).execute actions origin event depth =
      (s.execute actions origin event depth).map id (plain p) := by
  unfold execute
  rw [plain_engine]
  split
  case isTrue => exact plain_runActions hp actions origin _ depth
  case isFalse => rfl

theorem plain_complete (i : Nat) (outcome : Except RequestFailure Response) (depth : Nat) :
    (s.plain p).complete i outcome depth = (s.complete i outcome depth).map id (plain p) := by
  cases hg : Table.get? s.pending i
  case none =>
    simp only [complete, plain_pending, hg]
    rfl
  case some pending =>
    have hg' : Table.get? (s.plain p).pending i = some pending := hg
    by_cases ho : s.engine.tree.contains pending.origin
    case neg =>
      rw [complete_of_not_contains outcome hg depth ho,
        complete_of_not_contains outcome hg' depth ho]
      rfl
    case pos =>
      have hr := plain_runActions (s := s.answered i) hp (pending.handlers outcome) pending.origin
        [outcomeContext outcome] depth
      have hran : Proceeds (fun _ _ => True) (s.answered i) ((s.answered i).runActions
        (pending.handlers outcome) pending.origin [outcomeContext outcome] depth).2 :=
        proceeds_runActions _ _ _ _
      have hp' : ((s.answered i).runActions (pending.handlers outcome) pending.origin
        [outcomeContext outcome] depth).2.platform = p.transcribed := hran.platform_eq.trans hp
      have hf := plain_runActions hp' pending.onFinish pending.origin [] depth
      rw [complete_of_contains outcome hg ho rfl rfl,
        complete_of_contains outcome hg' ho hr.symm hf.symm]
      rfl

omit hp in
theorem plain_registerDeepLink (route screen : String) :
    (s.plain p).registerDeepLink route screen =
      (s.registerDeepLink route screen).map id (plain p) := by
  simp only [registerDeepLink, plain_router]
  generalize s.router.insert route screen = inserted
  obtain ⟨router, r⟩ := inserted
  cases r <;> rfl

def ask {τ : Type} (s : Session τ) : Input → Session τ
  | .launch route => (s.launch route).2
  | .execute actions origin event depth => (s.execute actions origin event depth).2
  | .complete i outcome depth => (s.complete i outcome depth).2
  | .registerDeepLink route screen => (s.registerDeepLink route screen).2
  | .adjust op => { s with engine := s.engine.apply op }

theorem plain_apply (input : Input) : (s.apply input).plain p = (s.plain p).ask input := by
  cases input
  case launch route => exact (congrArg Prod.snd (plain_launch hp route)).symm
  case execute actions origin event depth =>
    exact (congrArg Prod.snd (plain_execute hp actions origin event depth)).symm
  case complete i outcome depth =>
    exact (congrArg Prod.snd (plain_complete (s := s.note (.answered i)) hp i outcome depth)).symm
  case registerDeepLink route screen =>
    exact (congrArg Prod.snd (plain_registerDeepLink route screen)).symm
  case adjust => rfl

theorem plain_foldl_apply (inputs : List Input) :
    (inputs.foldl apply s).plain p = inputs.foldl ask (s.plain p) := by
  induction inputs generalizing s
  case nil => rfl
  case cons input inputs hi =>
    have ha : input.Allowed (fun _ _ => True) s := by cases input <;> trivial
    rw [List.foldl_cons, List.foldl_cons, hi ((proceeds_apply ha).platform_eq.trans hp),
      plain_apply hp]

end Asking

theorem plain_foldl_apply_start (p : Platform σ) (h : σ) (global : Value) (baseUrl : Option String)
    (inputs : List Input) :
    (inputs.foldl apply (start p h global baseUrl)).plain p =
      inputs.foldl ask { platform := p, host := h, engine := .start global baseUrl } :=
  plain_foldl_apply rfl inputs

end BindingEngine.Session
