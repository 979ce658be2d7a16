import Mathlib.Logic.Relation
import BindingEngine.Proofs.Session.Moves
import BindingEngine.Proofs.Session.Transcript

namespace BindingEngine

theorem Platform.Builds.transcribed {σ : Type} {p : Platform σ}
    {allowed : NodeId → Engine → Engine.Operation → Prop} (h : p.Builds allowed) :
    p.transcribed.Builds allowed :=
  fun host e root d hr => h host.1 e root d hr

namespace Session

variable {σ : Type} {allowed : Engine → Engine.Operation → Prop} {s s' : Session (σ × Transcript)}

-- One thing that happens to a session in the course of its actions or between them. Its engine may be
-- worked with directly as far as that is allowed.
inductive Progress (allowed : Engine → Engine.Operation → Prop) :
    Session (σ × Transcript) → Session (σ × Transcript) → Prop
  | report (s : Session (σ × Transcript)) (reports : List Report) :
    Progress allowed s (s.report reports)
  | validate (s : Session (σ × Transcript)) (n : NodeId) :
    Progress allowed s { s with host := (s.platform.validateForm s.host s.engine n).2 }
  | setContext (s : Session (σ × Transcript)) (id : String) (p : Path) (v : Value) (n : NodeId) :
    Progress allowed s { s with engine := (s.engine.setContext id p v n).2 }
  | send {s : Session (σ × Transcript)} {origin : NodeId} {implicit : List Context}
    {url : Expression String} {method : Option (Expression Method)}
    {headers : Option (Expression Headers)} {data : Option Data} {request : Request}
    {reports : List Report} (onSuccess onError onFinish : List Action) :
    s.engine.tree.contains origin →
    s.request? url method headers data (s.resolver origin implicit) = (some request, reports) →
    Progress allowed s ((s.report reports).send request ⟨origin, onSuccess, onError, onFinish⟩).2
  | perform (s : Session (σ × Transcript)) (handoff : Handoff) (move : Move) :
    Progress allowed s (s.perform handoff move).2
  | answer (s : Session (σ × Transcript)) (id : Nat) :
    Progress allowed s { s.note (.answered id) with pending := Table.erase s.pending id }
  | registerDeepLink (s : Session (σ × Transcript)) (route screen : String) :
    Progress allowed s (s.registerDeepLink route screen).2
  | adjust (s : Session (σ × Transcript)) (op : Engine.Operation) : allowed s.engine op →
    Progress allowed s { s with engine := s.engine.apply op }

abbrev Proceeds (allowed : Engine → Engine.Operation → Prop) :
    Session (σ × Transcript) → Session (σ × Transcript) → Prop :=
  Relation.ReflTransGen (Progress allowed)

theorem proceeds_report (reports : List Report) : Proceeds allowed s (s.report reports) :=
  .single (.report s reports)

theorem proceeds_navigate (n : Navigation) (origin : NodeId) (implicit : List Context) :
    Proceeds allowed s (s.navigate n origin implicit).2 := by
  simp only [navigate]
  split
  case h_1 => exact .trans (proceeds_report _) (proceeds_report _)
  case h_2 move _ _ =>
    exact .trans (proceeds_report _) (.tail (proceeds_report _) (.perform _ _ move))

theorem proceeds_launch (route : Route) : Proceeds allowed s (s.launch route).2 := by
  simp only [launch]
  split
  case h_1 => exact proceeds_report _
  case h_2 destination reports _ =>
    have h : Progress allowed _ _ := .perform (s.report reports) none
      (.present (.resetApplication none) destination)
    refine .tail (proceeds_report reports) ?_
    simp only [perform] at h
    split
    case h_1 he => rwa [he] at h
    case h_2 he => rwa [he] at h

section Execution

variable {submit : NodeId → List Context → Session (σ × Transcript) → Step (σ × Transcript)}
variable {origin : NodeId} {implicit : List Context}

mutual

theorem proceeds_run (hs : ∀ n implicit s, Proceeds allowed s (submit n implicit s).2) :
    (action : Action) → (s : Session (σ × Transcript)) → s.engine.tree.contains origin →
    Proceeds allowed s (run submit origin implicit action s).2
  | .setContext id path value, s, _ => by
    rw [run]
    exact .tail (proceeds_report _) (.setContext _ id _ _ origin)
  | .condition test onTrue onFalse, s, _ => by
    simp only [run]
    split
    case h_1 => exact .trans (proceeds_report _) (proceeds_runAll hs onTrue _)
    case h_2 => exact .trans (proceeds_report _) (proceeds_runAll hs onFalse _)
    case h_3 => exact .trans (proceeds_report _) (proceeds_report _)
  | .sendRequest url method headers data onSuccess onError onFinish, s, ho => by
    rw [run]
    split
    case h_1 => exact proceeds_report _
    case h_2 hr => exact .single (.send onSuccess onError onFinish ho hr)
  | .navigate n, s, _ => by
    rw [run]
    exact proceeds_navigate n origin implicit
  | .submitForm, s, _ => by
    rw [run]
    exact hs origin implicit s

theorem proceeds_runAll (hs : ∀ n implicit s, Proceeds allowed s (submit n implicit s).2) :
    (actions : List Action) → (s : Session (σ × Transcript)) →
    Proceeds allowed s (runAll submit origin implicit actions s).2
  | [], s => by
    rw [runAll]
  | action :: actions, s => by
    rw [runAll]
    split
    case isFalse => exact proceeds_report _
    case isTrue ho =>
      have h := proceeds_run hs action (s.report [.running action.kindName]) ho
      refine .trans (proceeds_report _) (.trans h ?_)
      split
      case h_1 s' he =>
        rw [he]
        exact proceeds_runAll hs actions s'
      case h_2 error s' he =>
        rw [he]
        split
        case isTrue => exact .trans (proceeds_report _) (proceeds_runAll hs actions _)
        case isFalse => exact .refl

end

end Execution

theorem proceeds_submit (depth : Nat) (n : NodeId) (implicit : List Context)
    (s : Session (σ × Transcript)) : Proceeds allowed s (submit depth n implicit s).2 := by
  induction depth generalizing n implicit s
  case zero => exact .refl
  case succ depth hi =>
    rw [submit]
    split
    case h_1 => exact proceeds_report _
    case h_2 node form _ =>
      refine .head (.validate s node) ?_
      simp only
      split
      case isTrue => exact .trans (proceeds_report _) (proceeds_runAll hi form.onSubmit _)
      case isFalse => exact .trans (proceeds_report _) (proceeds_runAll hi form.onValidationError _)

theorem proceeds_runActions (actions : List Action) (origin : NodeId) (implicit : List Context)
    (depth : Nat) : Proceeds allowed s (s.runActions actions origin implicit depth).2 :=
  proceeds_runAll (proceeds_submit depth) actions s

theorem proceeds_execute (actions : List Action) (origin : NodeId) (event : Option Event)
    (depth : Nat) : Proceeds allowed s (s.execute actions origin event depth).2 := by
  unfold execute
  split
  case isTrue => exact proceeds_runActions actions origin _ depth
  case isFalse => exact .refl

theorem proceeds_answered (id : Nat) (outcome : Except RequestFailure Response) (depth : Nat) :
    Proceeds allowed { s.note (.answered id) with pending := Table.erase s.pending id }
      ((s.note (.answered id)).complete id outcome depth).2 := by
  unfold complete
  have hp : (s.note (.answered id)).pending = s.pending := rfl
  split
  case h_1 he =>
    rw [Table.erase_of_not_mem (hp ▸ he)]
    exact proceeds_report _
  case h_2 pending he =>
    simp only
    split
    case isFalse => exact proceeds_report _
    case isTrue => exact .trans (proceeds_runActions _ _ _ _) (proceeds_runActions _ _ _ _)

def Input.Allowed (allowed : Engine → Engine.Operation → Prop) (s : Session (σ × Transcript)) :
    Input → Prop
  | .adjust op => allowed s.engine op
  | _ => True

abbrev Course (allowed : Engine → Engine.Operation → Prop) :
    Session (σ × Transcript) → Session (σ × Transcript) → Prop :=
  Relation.ReflTransGen fun s s' => ∃ input : Input, input.Allowed allowed s ∧ s' = s.apply input

theorem proceeds_apply {input : Input} (h : input.Allowed allowed s) :
    Proceeds allowed s (s.apply input) := by
  cases input
  case launch route => exact proceeds_launch route
  case execute actions origin event depth => exact proceeds_execute actions origin event depth
  case complete id outcome depth => exact .head (.answer s id) (proceeds_answered id outcome depth)
  case registerDeepLink route screen => exact .single (.registerDeepLink s route screen)
  case adjust op => exact .single (.adjust s op h)

theorem Course.proceeds (h : Course allowed s s') : Proceeds allowed s s' := by
  induction h
  case refl => exact .refl
  case tail h hi =>
    obtain ⟨input, ha, rfl⟩ := h
    exact hi.trans (proceeds_apply ha)

theorem transcript_dismiss {p : Platform σ} (hp : s.platform = p.transcribed)
    (roots : List NodeId) :
    (s.dismiss roots).transcript = s.transcript ++ roots.map .dismissed := by
  induction roots generalizing s
  case nil => exact (List.append_nil _).symm
  case cons root roots hi =>
    rw [List.map_cons, List.append_cons]
    refine (hi (s := { s with
      host := s.platform.dismissScreen s.host root
      engine := (s.engine.destroy root).2 }) hp).trans ?_
    simp only [transcript, hp]
    rfl

section Host

variable {p : Platform σ} (hp : s.platform = p.transcribed) {r : Except String Unit}
variable {host : σ × Transcript}

include hp

theorem host_of_build {e e' : Engine} {root : NodeId} {d : Destination}
    (hb : s.platform.buildScreen s.host e root d = (r, e', host)) :
    host.2 = s.transcript ++ [.built root d r] := by
  rw [hp] at hb
  cases hb
  rfl

theorem host_of_openUrl {url : String} (ho : s.platform.openUrl s.host url = (r, host)) :
    host.2 = s.transcript ++ [.openedUrl url] := by
  rw [hp] at ho
  cases ho
  rfl

theorem host_of_openNative {screen : NativeScreen}
    (ho : s.platform.openNative s.host screen = (r, host)) :
    host.2 = s.transcript ++ [.openedNative screen] := by
  rw [hp] at ho
  cases ho
  rfl

end Host

theorem send_cases {p : Platform σ} (hp : s.platform = p.transcribed) (request : Request)
    (pending : Pending) : ∃ h,
    (∃ text, s.send request pending = (.error (.ofPlatform text),
      { s.report [.sending s.nextRequest request.url] with
        host := (h, s.transcript ++ [.sent s.nextRequest request (.error text)])
        nextRequest := s.nextRequest + 1 })) ∨
    s.send request pending = (.ok (),
      { s.report [.sending s.nextRequest request.url] with
        host := (h, s.transcript ++ [.sent s.nextRequest request (.ok ())])
        nextRequest := s.nextRequest + 1
        pending := Table.insert s.pending s.nextRequest pending }) := by
  obtain ⟨⟨r, h⟩, hr⟩ : ∃ sent, p.sendRequest s.host.1 s.nextRequest request = sent := ⟨_, rfl⟩
  refine ⟨h, ?_⟩
  simp only [send, report, hp, Platform.transcribed, hr]
  cases r
  case error text => exact .inl ⟨text, rfl⟩
  case ok => exact .inr rfl

section Engine

theorem platform_send {s : Session σ} {request : Request} {pending : Pending} :
    (s.send request pending).2.platform = s.platform := by
  simp only [send]
  split <;> rfl

theorem leads_send {s : Session σ} {request : Request} {pending : Pending} :
    Engine.Leads s.engine (s.send request pending).2.engine := by
  simp only [send]
  split <;> exact leads_report _

theorem registerDeepLink_eq (s : Session σ) (route screen : String) : ∃ router,
    (s.registerDeepLink route screen).2 = { s with router } := by
  unfold registerDeepLink
  split <;> exact ⟨_, rfl⟩

theorem Progress.platform_eq (h : Progress allowed s s') : s'.platform = s.platform := by
  cases h
  case send => exact platform_send
  case perform => exact platform_perform rfl
  case registerDeepLink route screen =>
    obtain ⟨_, he⟩ := registerDeepLink_eq s route screen
    rw [he]
  all_goals rfl

theorem Proceeds.platform_eq (h : Proceeds allowed s s') : s'.platform = s.platform := by
  induction h
  case refl => rfl
  case tail h hi => exact h.platform_eq.trans hi

theorem Progress.leads (h : Progress allowed s s') (hp : s.platform.Builds fun _ _ _ => True)
    (hs : s.engine.Sound) : Engine.Leads s.engine s'.engine := by
  cases h
  case report reports => exact leads_report reports
  case validate => exact .refl
  case setContext id p v n => exact .single (.operation s.engine (.setContext id p v n))
  case send => exact .trans (leads_report _) leads_send
  case perform => exact leads_perform hp hs rfl
  case answer => exact .refl
  case registerDeepLink route screen =>
    obtain ⟨_, he⟩ := registerDeepLink_eq s route screen
    rw [he]
  case adjust op _ => exact .single (.operation s.engine op)

theorem Proceeds.leads (h : Proceeds allowed s s') (hp : s.platform.Builds fun _ _ _ => True)
    (hs : s.engine.Sound) : Engine.Leads s.engine s'.engine := by
  induction h
  case refl => exact .refl
  case tail h hst hi => exact hi.trans (hst.leads (Proceeds.platform_eq h ▸ hp) (hi.sound hs))

end Engine

theorem Proceeds.reached {p : Platform σ} (hp : p.Builds fun _ _ _ => True) {h : σ} {global : Value}
    {baseUrl : Option String} (hg : Proceeds allowed (start p h global baseUrl) s) :
    s.platform = p.transcribed ∧ s.engine.Sound := by
  have hs : (start p h global baseUrl).engine.Sound := .start global baseUrl
  exact ⟨hg.platform_eq, (hg.leads hp.transcribed hs).sound hs⟩

section Examples

def fragile : Platform Unit where
  buildScreen h e root d :=
    (if d.identifier? = some "broken" then .error "no such screen" else .ok (),
      (e.declareContext root ⟨"title", .string (d.identifier?.getD "")⟩).2, h)
  sendRequest h _ request := (if request.url = "/down" then .error "no connection" else .ok (), h)
  openUrl h _ := (.ok (), h)
  openNative h screen := (.error ("cannot reach " ++ screen.screen), h)

theorem fragile_builds {allowed : NodeId → Engine → Engine.Operation → Prop}
    (h : ∀ {root e x}, e.tree.contains root → allowed root e (.declareContext root x)) :
    fragile.Builds allowed :=
  fun _ _ _ _ hr => .single ⟨.declareContext _ _, h hr.1, rfl⟩

def screenNamed (identifier : String) : Route :=
  .screen (.map [("identifier", .string identifier)])

def push (identifier : String) (context : Option NavigationContext := none) : Action :=
  .navigate (.present .pushView (screenNamed identifier) context)

def pop (context : Option NavigationContext := none) : Action :=
  .navigate (.back .view context)

def launched : Session (Unit × Transcript) :=
  (start fragile () .null none).apply (.launch (screenNamed "home"))

theorem course_launched : Course allowed (start fragile () .null none) launched :=
  .single ⟨.launch (screenNamed "home"), trivial, rfl⟩

end Examples

end Session

end BindingEngine
