import Mathlib.Data.List.Induction
import Mathlib.Data.List.Nodup
import BindingEngine.Proofs.Session.Course
import BindingEngine.Proofs.Session.Evaluation
import BindingEngine.Proofs.Session.Running

namespace BindingEngine

namespace Exchange

def isQuiet : Exchange → Bool
  | sent _ _ _ => false
  | answered _ => false
  | _ => true

theorem mem_awaited_iff {x : Exchange} {ids : List Nat} {i : Nat} :
    i ∈ x.awaited ids ↔ (∃ request, x = .sent i request (.ok ())) ∨ i ∈ ids ∧ x ≠ .answered i := by
  cases x
  case sent j request r => cases r <;> simp [awaited, or_comm, @eq_comm _ j i]
  case answered j => simp [awaited, @eq_comm _ j i]
  all_goals simp [awaited]

end Exchange

namespace Transcript

variable {t t' : Transcript} {x : Exchange} {i : Nat}

-- Request `i` was sent, and there was no outcome of it since.
def Awaits (t : Transcript) (i : Nat) : Prop :=
  ∃ pre request post, t = pre ++ .sent i request (.ok ()) :: post ∧ .answered i ∉ post

theorem awaits_concat : Awaits (t ++ [x]) i ↔
    (∃ request, x = .sent i request (.ok ())) ∨ t.Awaits i ∧ x ≠ .answered i := by
  constructor
  case mp =>
    rintro ⟨pre, request, post, he, hn⟩
    rcases List.eq_nil_or_concat post with rfl | ⟨post, y, rfl⟩
    case inl => exact .inl ⟨request, (List.append_inj' he rfl).2 |> List.singleton_inj.mp⟩
    case inr =>
      rw [List.concat_eq_append, ← List.cons_append, ← List.append_assoc] at he
      obtain ⟨ht, hx⟩ := List.append_inj' he rfl
      rw [List.concat_eq_append, List.mem_append, not_or] at hn
      refine .inr ⟨⟨pre, request, post, ht, hn.1⟩, fun ha => hn.2 ?_⟩
      rw [← List.singleton_inj.mp hx, ha]
      exact List.mem_singleton_self _
  case mpr =>
    rintro (⟨request, rfl⟩ | ⟨⟨pre, request, post, rfl, hn⟩, hx⟩)
    case inl => exact ⟨t, request, [], rfl, List.not_mem_nil⟩
    case inr =>
      refine ⟨pre, request, post ++ [x], by simp, fun hm => ?_⟩
      exact (List.mem_append.mp hm).elim hn fun hm => hx (List.mem_singleton.mp hm).symm

theorem sent_append (t t' : Transcript) : sent (t ++ t') = sent t ++ sent t' :=
  List.filterMap_append

theorem awaited_concat (t : Transcript) (x : Exchange) :
    awaited (t ++ [x]) = x.awaited (awaited t) :=
  List.foldl_concat ..

theorem mem_awaited_iff : i ∈ t.awaited ↔ t.Awaits i := by
  induction t using List.reverseRecOn
  case nil => simp [awaited, Awaits]
  case append_singleton t x hi => rw [awaits_concat, ← hi, ← Exchange.mem_awaited_iff, awaited_concat]

theorem Awaits.mem_sent (h : t.Awaits i) : i ∈ t.sent := by
  obtain ⟨pre, request, post, rfl, _⟩ := h
  exact List.mem_filterMap.mpr ⟨.sent i request (.ok ()), by simp, rfl⟩

theorem sent_append_of_quiet (hq : ∀ x ∈ t', x.isQuiet) : sent (t ++ t') = sent t := by
  have hn : t'.filterMap Exchange.sent? = [] := by
    refine List.filterMap_eq_nil_iff.mpr fun x hx => ?_
    have hx := hq x hx
    cases x <;> first | rfl | contradiction
  rw [sent_append, show sent t' = [] from hn, List.append_nil]

theorem awaited_append_of_quiet (hq : ∀ x ∈ t', x.isQuiet) : awaited (t ++ t') = awaited t := by
  rw [awaited, List.foldl_append]
  refine List.foldlRecOn (motive := (· = awaited t)) t' _ rfl fun ids hi x hx => ?_
  have hx := hq x hx
  cases x <;> first | exact hi | contradiction

end Transcript

namespace Session

variable {σ : Type} {p : Platform σ} {s s' s'' : Session (σ × Transcript)}
variable {allowed : Engine → Engine.Operation → Prop} {i : Nat}

-- An outcome of which only the log hears. No request is waited for in vain afterwards.
def Ignored (s : Session (σ × Transcript)) (i : Nat) (outcome : Except RequestFailure Response) :
    Prop :=
  ∃ r : Report, r.isSilent ∧ ∀ depth, (s.note (.answered i)).complete i outcome depth =
    (.ok (), ((s.note (.answered i)).answered i).report [r])

section Complete

variable {outcome : Except RequestFailure Response} {pending : Pending}

theorem ignored_of_unknown (h : Table.get? s.pending i = none) : s.Ignored i outcome := by
  refine ⟨.unknownRequest, rfl, fun depth => ?_⟩
  have hp : Table.get? (s.note (.answered i)).pending i = none := h
  simp only [complete, hp, answered, Table.erase_of_not_mem hp]

theorem ignored_of_tornDown (h : Table.get? s.pending i = some pending)
    (ho : ¬s.engine.tree.contains pending.origin) : s.Ignored i outcome :=
  ⟨.originGone, rfl, fun depth =>
    complete_of_not_contains (s := s.note (.answered i)) outcome h depth ho⟩

end Complete

structure Calm (s s' : Session (σ × Transcript)) : Prop where
  pending : s'.pending = s.pending
  nextRequest : s'.nextRequest = s.nextRequest
  sent : s'.transcript.sent = s.transcript.sent
  awaited : s'.transcript.awaited = s.transcript.awaited

namespace Calm

theorem trans (h : Calm s s') (h' : Calm s' s'') : Calm s s'' where
  pending := h'.pending.trans h.pending
  nextRequest := h'.nextRequest.trans h.nextRequest
  sent := h'.sent.trans h.sent
  awaited := h'.awaited.trans h.awaited

theorem of_quiet {t : Transcript} (ht : s'.transcript = s.transcript ++ t)
    (hq : ∀ x ∈ t, x.isQuiet) (hp : s'.pending = s.pending)
    (hn : s'.nextRequest = s.nextRequest) : Calm s s' where
  pending := hp
  nextRequest := hn
  sent := ht ▸ Transcript.sent_append_of_quiet hq
  awaited := ht ▸ Transcript.awaited_append_of_quiet hq

theorem report (s : Session (σ × Transcript)) (reports : List Report) :
    Calm s (s.report reports) := ⟨rfl, rfl, rfl, rfl⟩

theorem handOver (s : Session (σ × Transcript)) (root : NodeId) (handoff : Handoff) :
    Calm s (s.handOver root handoff).2 := by
  rw [handOver_eq]
  exact ⟨rfl, rfl, rfl, rfl⟩

variable (hp : s.platform = p.transcribed)

include hp

theorem dismiss (navigator : Navigator) (roots : List NodeId) :
    Calm s ({ s with navigator }.dismiss roots) := by
  refine of_quiet (transcript_dismiss (s := { s with navigator }) hp roots) (fun x hx => ?_) ?_ ?_
  case refine_1 =>
    obtain ⟨_, _, rfl⟩ := List.mem_map.mp hx
    rfl
  case refine_2 => rw [dismiss_eq]
  case refine_3 => rw [dismiss_eq]

theorem present {d : Destination} {handoff : Handoff} {r : Except Error Screen}
    (he : s.present d handoff = (r, s')) : Calm s s' := by
  cases presented he
  case refused => exact ⟨rfl, rfl, rfl, rfl⟩
  case unbuilt hb => exact of_quiet (host_of_build hp hb) (by simp [Exchange.isQuiet]) rfl rfl
  case built hb => exact of_quiet (host_of_build hp hb) (by simp [Exchange.isQuiet]) rfl rfl

theorem back {how : Return String} {handoff : Handoff} {r : Except Error Unit}
    (he : s.back how handoff = (r, s')) : Calm s s' := by
  have hd {removed : List NodeId} (navigator : Navigator) (reports : List Report) :
      Calm s ({ s.report reports with navigator }.dismiss removed) :=
    (report s reports).trans (dismiss (s := s.report reports) hp navigator removed)
  cases returned he
  case stayed => exact ⟨rfl, rfl, rfl, rfl⟩
  case emptied navigator reports _ _ _ => exact hd navigator reports
  case uncovered navigator _ reports _ _ _ => exact (hd navigator reports).trans (handOver _ _ _)

theorem perform {handoff : Handoff} {move : Move} {r : Except Error Unit}
    (he : s.perform handoff move = (r, s')) : Calm s s' := by
  cases performed he
  case openedUrl ho => exact of_quiet (host_of_openUrl hp ho) (by simp [Exchange.isQuiet]) rfl rfl
  case left ho => exact of_quiet (host_of_openNative hp ho) (by simp [Exchange.isQuiet]) rfl rfl
  case cleared screen s' _ _ _ hd ho =>
    have hc := dismiss (s := s.report [.openingNative screen.screen]) hp {} s.navigator.roots
    have hp' : s'.platform = p.transcribed := hd ▸ platform_dismiss.trans hp
    exact ((report s _).trans (hd ▸ hc)).trans
      (of_quiet (host_of_openNative hp' ho) (by simp [Exchange.isQuiet]) rfl rfl)
  case refused hd => exact present hp hd
  case displayed hd _ => exact (present hp hd).trans (dismiss ((platform_present hd).trans hp) _ _)
  case returned hd => exact back hp hd

end Calm

-- The action that sends request `i` ran, from an origin that was there, and what it says is to be done
-- when the request is complete.
inductive Sending (i : Nat) : Pending → Session (σ × Transcript) → Session (σ × Transcript) → Prop
  | mk {s s' : Session (σ × Transcript)} {origin : NodeId} {implicit : List Context}
    {url : Expression String} {method : Option (Expression Method)}
    {headers : Option (Expression Headers)} {data : Option Data} {request : Request}
    {onSuccess onError onFinish : List Action} : s.engine.tree.contains origin →
    (∀ depth, run (submit depth) origin implicit
      (.sendRequest url method headers data onSuccess onError onFinish) s = (.ok (), s')) →
    s'.transcript = s.transcript ++ [.sent i request (.ok ())] →
    Sending i ⟨origin, onSuccess, onError, onFinish⟩ s s'

inductive Served (s s' : Session (σ × Transcript)) : Prop
  | calm : Calm s s' → Served s s'
  | sent {request : Request} {pending : Pending} : Sending s.nextRequest pending s s' →
    s'.transcript = s.transcript ++ [.sent s.nextRequest request (.ok ())] →
    s'.pending = Table.insert s.pending s.nextRequest pending →
    s'.nextRequest = s.nextRequest + 1 → Served s s'
  | unsent {request : Request} {text : String} :
    s'.transcript = s.transcript ++ [.sent s.nextRequest request (.error text)] →
    s'.pending = s.pending → s'.nextRequest = s.nextRequest + 1 → Served s s'
  | answered (i : Nat) : s'.transcript = s.transcript ++ [.answered i] →
    s'.pending = Table.erase s.pending i → s'.nextRequest = s.nextRequest → Served s s'

theorem Progress.served (h : Progress allowed s s') (hp : s.platform = p.transcribed) :
    Served s s' := by
  cases h
  case report => exact .calm (.report s _)
  case validate n =>
    refine .calm (.of_quiet (t := [.validated n]) ?_ (by simp [Exchange.isQuiet]) rfl rfl)
    simp only [transcript, hp]
    rfl
  case setContext => exact .calm ⟨rfl, rfl, rfl, rfl⟩
  case send origin implicit url method headers data request reports onSuccess onError onFinish ho hr =>
    have hp' : (s.report reports).platform = p.transcribed := hp
    obtain ⟨host, ⟨text, he⟩ | he⟩ :=
      send_cases hp' request ⟨origin, onSuccess, onError, onFinish⟩
    case inl =>
      rw [he]
      exact .unsent rfl rfl rfl
    case inr =>
      have hs (depth : Nat) : run (submit depth) origin implicit
          (.sendRequest url method headers data onSuccess onError onFinish) s =
          (s.report reports).send request ⟨origin, onSuccess, onError, onFinish⟩ := by
        rw [run, hr]
      rw [he] at hs ⊢
      exact .sent (.mk ho hs rfl) rfl rfl rfl
  case perform => exact .calm (.perform hp rfl)
  case answer i => exact .answered i rfl rfl rfl
  case registerDeepLink route screen =>
    obtain ⟨_, he⟩ := registerDeepLink_eq s route screen
    rw [he]
    exact .calm ⟨rfl, rfl, rfl, rfl⟩
  case adjust => exact .calm ⟨rfl, rfl, rfl, rfl⟩

-- The requests that are pending are those without an outcome, in the order in which they were sent, and
-- every number is given once.
structure Numbered (s : Session (σ × Transcript)) : Prop where
  keys : Table.keys s.pending = s.transcript.awaited
  unique : Table.Unique s.pending
  nodup : s.transcript.sent.Nodup
  lt {i : Nat} : i ∈ s.transcript.sent → i < s.nextRequest

namespace Numbered

theorem start (p : Platform σ) (h : σ) (global : Value) (baseUrl : Option String) :
    Numbered (start p h global baseUrl) where
  keys := rfl
  unique := .nil
  nodup := .nil
  lt h := by simp [Session.start, transcript, Transcript.sent] at h

theorem get?_isSome_iff (h : Numbered s) :
    (Table.get? s.pending i).isSome ↔ s.transcript.Awaits i := by
  rw [← Table.mem_keys_iff, h.keys, Transcript.mem_awaited_iff]

theorem sent (h : Numbered s) {request : Request} {r : Except String Unit}
    (ht : s'.transcript = s.transcript ++ [.sent s.nextRequest request r])
    (hn : s'.nextRequest = s.nextRequest + 1) :
    s'.transcript.sent.Nodup ∧ ∀ {i}, i ∈ s'.transcript.sent → i < s'.nextRequest := by
  have hs : s'.transcript.sent = s.transcript.sent.concat s.nextRequest := by
    rw [ht, Transcript.sent_append, List.concat_eq_append]
    rfl
  rw [hs]
  refine ⟨.concat (fun hm => (h.lt hm).false) h.nodup, fun {i} hi => ?_⟩
  rw [List.concat_eq_append, List.mem_append, List.mem_singleton] at hi
  rw [hn]
  rcases hi with hi | rfl
  case inl => exact Nat.lt_succ_of_lt (h.lt hi)
  case inr => exact Nat.lt_succ_self _

theorem served (h : Numbered s) (hs : Served s s') : Numbered s' := by
  cases hs
  case calm hc =>
    refine ⟨?_, hc.pending ▸ h.unique, hc.sent ▸ h.nodup, fun hi => ?_⟩
    case refine_1 => rw [hc.pending, hc.awaited, h.keys]
    case refine_2 => exact hc.nextRequest ▸ h.lt (hc.sent ▸ hi)
  case sent request pending _ ht hp hn =>
    have hk : s.nextRequest ∉ Table.keys s.pending := fun hm =>
      (h.lt (Transcript.mem_awaited_iff.mp (h.keys ▸ hm)).mem_sent).false
    refine ⟨?_, hp ▸ Table.unique_insert h.unique _ _, (h.sent ht hn).1, (h.sent ht hn).2⟩
    rw [hp, Table.keys_insert_of_not_mem hk, h.keys, ht, Transcript.awaited_concat]
    rfl
  case unsent request text ht hp hn =>
    refine ⟨?_, hp ▸ h.unique, (h.sent ht hn).1, (h.sent ht hn).2⟩
    rw [hp, h.keys, ht, Transcript.awaited_concat]
    rfl
  case answered i ht hp hn =>
    have hs : s'.transcript.sent = s.transcript.sent := by
      rw [ht, Transcript.sent_append]
      exact List.append_nil _
    refine ⟨?_, hp ▸ Table.unique_erase h.unique i, hs ▸ h.nodup, fun hi => ?_⟩
    case refine_1 =>
      rw [hp, Table.keys_erase, h.keys, ht, Transcript.awaited_concat]
      rfl
    case refine_2 => exact hn ▸ h.lt (hs ▸ hi)

end Numbered

theorem Proceeds.numbered {s₀ : Session (σ × Transcript)} (hp : s₀.platform = p.transcribed)
    (hn : Numbered s₀) (h : Proceeds allowed s₀ s) : Numbered s := by
  induction h
  case refl => exact hn
  case tail h hs hi => exact hi.served (hs.served ((Proceeds.platform_eq h).trans hp))

section Sent

variable {pending : Pending}

theorem Sending.contains (h : Sending i pending s s') : s.engine.tree.contains pending.origin := by
  cases h
  assumption

theorem Sending.proceeds (h : Sending i pending s s') : Proceeds allowed s s' := by
  cases h
  case mk ho hr _ =>
    rw [← show _ = s' from congrArg Prod.snd (hr 0)]
    exact proceeds_run (proceeds_submit 0) _ s ho

theorem Served.pending_or_sending (h : Served s s') (hg : Table.get? s'.pending i = some pending) :
    Table.get? s.pending i = some pending ∨ Sending i pending s s' := by
  cases h
  case calm hc => exact .inl (hc.pending ▸ hg)
  case sent hs _ hp _ =>
    rw [hp, Table.get?_insert] at hg
    split at hg
    case isTrue hi =>
      cases hg
      exact .inr (hi ▸ hs)
    case isFalse => exact .inl hg
  case unsent hp _ => exact .inl (hp ▸ hg)
  case answered hp _ =>
    rw [hp, Table.get?_erase] at hg
    split at hg
    case isTrue => contradiction
    case isFalse => exact .inl hg

theorem Proceeds.sending {s₀ : Session (σ × Transcript)} (hp : s₀.platform = p.transcribed)
    (hn : s₀.pending = []) (h : Proceeds allowed s₀ s)
    (hg : Table.get? s.pending i = some pending) : ∃ s₁ s₂, Proceeds allowed s₀ s₁ ∧
      Sending i pending s₁ s₂ ∧ Proceeds allowed s₂ s := by
  induction h
  case refl =>
    rw [hn] at hg
    contradiction
  case tail s s' h hs hi =>
    cases (hs.served ((Proceeds.platform_eq h).trans hp)).pending_or_sending hg
    case inl hg =>
      obtain ⟨s₁, s₂, h₁, hd, h₂⟩ := hi hg
      exact ⟨s₁, s₂, h₁, hd, h₂.tail hs⟩
    case inr hd => exact ⟨s, s', h, hd, .refl⟩

theorem Served.settled (h : Served s s') (hs : i < s.nextRequest ∧ Table.get? s.pending i = none) :
    i < s'.nextRequest ∧ Table.get? s'.pending i = none := by
  cases h
  case calm hc => rwa [hc.pending, hc.nextRequest]
  case sent hp hn =>
    rw [hp, hn, Table.get?_insert, if_neg (Nat.ne_of_lt hs.1)]
    exact ⟨Nat.lt_succ_of_lt hs.1, hs.2⟩
  case unsent hp hn =>
    rw [hp, hn]
    exact ⟨Nat.lt_succ_of_lt hs.1, hs.2⟩
  case answered hp hn =>
    rw [hp, hn, Table.get?_erase, hs.2]
    exact ⟨hs.1, ite_self _⟩

theorem Proceeds.settled (hp : s.platform = p.transcribed) (h : Proceeds allowed s s')
    (hs : i < s.nextRequest ∧ Table.get? s.pending i = none) :
    i < s'.nextRequest ∧ Table.get? s'.pending i = none := by
  induction h
  case refl => exact hs
  case tail h ht hi => exact (ht.served ((Proceeds.platform_eq h).trans hp)).settled hi

end Sent

theorem Sending.origin_kept {pending : Pending} {s₁ s₂ : Session (σ × Transcript)}
    (h : Sending i pending s₁ s₂) (hb : s₁.platform.Builds fun _ _ _ => True)
    (hs : s₁.engine.Sound) (hg : Proceeds allowed s₂ s) :
    (s.engine.tree.contains pending.origin →
      s.engine.tree.ancestors pending.origin = s₁.engine.tree.ancestors pending.origin) ∧
    ∀ s₃, Proceeds allowed s₂ s₃ → Proceeds allowed s₃ s →
      ¬s₃.engine.tree.contains pending.origin → ¬s.engine.tree.contains pending.origin := by
  have hl {s' : Session (σ × Transcript)} (hg : Proceeds allowed s₂ s') :
      s'.platform = s₁.platform ∧ Engine.Leads s₁.engine s'.engine := by
    have hg : Proceeds allowed s₁ s' := h.proceeds.trans hg
    exact ⟨hg.platform_eq, hg.leads hb hs⟩
  refine ⟨((hl hg).2.later hs).ancestors_eq h.contains, fun s₃ hg₃ hg hn => ?_⟩
  obtain ⟨hp₃, hl₃⟩ := hl hg₃
  have hspent := (hl₃.later hs).spent_of_not_contains h.contains hn
  have hl : Engine.Leads s₃.engine s.engine := hg.leads (hp₃ ▸ hb) (hl₃.sound hs)
  exact ((hl.later (hl₃.sound hs)).spent hspent).not_contains

variable {h : σ} {global : Value} {baseUrl : Option String}

-- Every request has a number of its own and is pending until its outcome is told. If its origin is there
-- then, the handlers that were given when it was sent run, and they run from that origin. Any other
-- outcome is ignored.
theorem requests_accounted (hc : Course (fun _ _ => True) (start p h global baseUrl) s) :
    s.transcript.sent.Nodup ∧
    (s.pending.length = s.transcript.awaited.length ∧ s.transcript.awaited.Nodup ∧
      ∀ i, i ∈ s.transcript.awaited ↔ s.transcript.Awaits i) ∧
    (∀ i, s.transcript.Awaits i → ∃ pending, Table.get? s.pending i = some pending ∧
      (∃ s₁ s₂, Proceeds (fun _ _ => True) (start p h global baseUrl) s₁ ∧
        Sending i pending s₁ s₂ ∧ Proceeds (fun _ _ => True) s₂ s ∧
        (p.Builds (fun _ _ _ => True) →
          (s.engine.tree.contains pending.origin →
            s.engine.tree.ancestors pending.origin = s₁.engine.tree.ancestors pending.origin) ∧
          ∀ s₃, Proceeds (fun _ _ => True) s₂ s₃ → Proceeds (fun _ _ => True) s₃ s →
            ¬s₃.engine.tree.contains pending.origin → ¬s.engine.tree.contains pending.origin)) ∧
      ∀ outcome, if s.engine.tree.contains pending.origin then
        ∀ depth, Handled depth pending outcome ((s.note (.answered i)).answered i)
          ((s.note (.answered i)).complete i outcome depth)
        else s.Ignored i outcome) ∧
    (∀ i, ¬s.transcript.Awaits i → ∀ outcome, s.Ignored i outcome) ∧
    (∀ i outcome depth s', s.transcript.Awaits i →
      Course (fun _ _ => True) (s.apply (.complete i outcome depth)) s' →
      ∀ outcome', s'.Ignored i outcome') := by
  have hg := hc.proceeds
  have hn : Numbered s := hg.numbered rfl (.start p h global baseUrl)
  have hp : s.platform = p.transcribed := hg.platform_eq
  refine ⟨hn.nodup, ⟨?length, ?nodup, fun i => Transcript.mem_awaited_iff⟩, fun i hi => ?awaited,
    fun i hi outcome => ?unknown, fun i outcome depth s' hi hc' outcome' => ?settled⟩
  case length => rw [← hn.keys, Table.keys, List.length_map]
  case nodup => exact hn.keys ▸ hn.unique
  case awaited =>
    obtain ⟨pending, hpd⟩ := Option.isSome_iff_exists.mp (hn.get?_isSome_iff.mpr hi)
    obtain ⟨s₁, s₂, h₁, hd, h₂⟩ := hg.sending rfl rfl hpd
    refine ⟨pending, hpd, ⟨s₁, s₂, h₁, hd, h₂, fun hb => ?_⟩, fun outcome => ?_⟩
    case refine_1 =>
      obtain ⟨hp₁, hs₁⟩ := h₁.reached hb
      exact hd.origin_kept (hp₁ ▸ hb.transcribed) hs₁ h₂
    case refine_2 =>
      split
      case isTrue ho =>
        exact fun depth => handled_complete (s := s.note (.answered i)) outcome hpd depth ho
      case isFalse ho => exact ignored_of_tornDown hpd ho
  case unknown =>
    exact ignored_of_unknown (Option.not_isSome_iff_eq_none.mp (hn.get?_isSome_iff.not.mpr hi))
  case settled =>
    have hlt : i < s.nextRequest := hn.lt hi.mem_sent
    have ha := Proceeds.settled (i := i) (p := p) (s := (s.note (.answered i)).answered i) hp
      ((proceeds_answered i outcome depth).trans hc'.proceeds) ⟨hlt, Table.get?_erase_self _ _⟩
    exact ignored_of_unknown ha.2

def entitle (context : String) (keys : List String) : Action :=
  .setContext "title" none (.array (keys.map fun key =>
    .binding ⟨"@\x7b" ++ context ++ "." ++ key ++ "\x7d", [.binding (.read context [.static (.key key)])]⟩))

def asking : Pending where
  origin := ⟨0, 0⟩
  onSuccess := [entitle "onSuccess" ["data", "status", "statusText"]]
  onError := [entitle "onError" ["data", "status", "statusText", "message"]]
  onFinish := [.setContext "global" none (.value (.string "done"))]

def asked : Session (Unit × Transcript) :=
  launched.apply (.execute
    [.sendRequest (.value "/users") none none none asking.onSuccess asking.onError asking.onFinish]
    ⟨0, 0⟩ none)

def found : Response := ⟨.string "Ada", 200, "OK"⟩

def missing : RequestFailure := ⟨.null, some 404, none, "no such user"⟩

theorem asked_accounted : asked.transcript.Awaits 0 ∧
    (∀ outcome depth, Handled depth asking outcome ((asked.note (.answered 0)).answered 0)
      ((asked.note (.answered 0)).complete 0 outcome depth)) ∧
    (asked.apply (.complete 0 (.ok found))).engine.resolve "title" ⟨0, 0⟩ =
      some (.array [.string "Ada", .int 200, .string "OK"]) ∧
    (asked.apply (.complete 0 (.error missing))).engine.resolve "title" ⟨0, 0⟩ =
      some (.array [.null, .int 404, .null, .string "no such user"]) ∧
    (asked.apply (.complete 0 (.error missing))).engine.global = .string "done" ∧
    (asked.apply (.complete 0 (.ok found))).Ignored 0 (.ok found) := by
  have hc : Course (fun _ _ => True) (start fragile () .null none) asked :=
    course_launched.tail ⟨.execute _ _ _, trivial, rfl⟩
  obtain ⟨_, ⟨_, _, ha⟩, hh, _, hs⟩ := requests_accounted hc
  have h₀ : asked.transcript.Awaits 0 := (ha 0).mp (by decide)
  obtain ⟨pending, hp, _, ho⟩ := hh 0 h₀
  cases hp
  exact ⟨h₀, fun outcome depth => ho outcome depth, rfl, rfl, rfl,
    hs 0 (.ok found) _ _ h₀ .refl (.ok found)⟩

end Session

end BindingEngine
