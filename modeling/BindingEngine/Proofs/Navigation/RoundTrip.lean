import BindingEngine.Navigation.Basic
import BindingEngine.Proofs.Path.RoundTrip
import BindingEngine.Proofs.Table

namespace BindingEngine

open Record

namespace NavigationContext

structure Legible (c : NavigationContext) : Prop where
  path : Decoded.Keeps Decoded.path (fun p => .string (Path.text p)) c.path
  value : Decoded.data c.value.written = .ok c.value

variable {c : NavigationContext} {v : Value}

theorem legible_of_decode (hv : v.Plain) (h : decode v = .ok c) : c.Legible := by
  refine read_induction (P := Legible) hv ⟨Decoded.keeps_none, rfl⟩ ?_ h
  intro c name v c' hv hc h
  split at h
  case h_1 =>
    obtain ⟨p, hp, rfl⟩ := map_eq_ok_iff.mp h
    exact ⟨Restores.path.optional hv hp, hc.value⟩
  case h_2 =>
    obtain ⟨d, hd, rfl⟩ := map_eq_ok_iff.mp h
    exact ⟨hc.path, Restores.data.again hv hd⟩
  case h_3 => exact Except.ok.inj h ▸ hc

theorem Legible.decode_written (h : c.Legible) : decode c.written = .ok c := by
  refine read_written ?_ (by simp)
  refine foldlM_enter_cons (enter_optionalField (f := fun p => ⟨p, .value .null⟩)
    (fun _ => rfl) rfl h.path) ?_
  exact foldlM_enter_cons (enter_field (f := fun d => ⟨c.path, d⟩) (fun _ => rfl) h.value) rfl

end NavigationContext

theorem Restores.navigationContext : Restores NavigationContext.decode NavigationContext.written where
  again hv h := (NavigationContext.legible_of_decode hv h).decode_written
  ne_null _ _ _ := Value.noConfusion

namespace ScreenRequest

structure Legible (r : ScreenRequest Data) : Prop where
  body : Decoded.Keeps Decoded.data Data.written r.body

variable {r : ScreenRequest Data} {v : Value}

theorem legible_of_decode (hv : v.Plain) (h : decode v = .ok r) : r.Legible := by
  refine read_induction (P := Legible) hv ⟨Decoded.keeps_none⟩ ?_ h
  intro r name v r' hv hr h
  split at h
  case h_1 | h_2 =>
    obtain ⟨_, _, rfl⟩ := map_eq_ok_iff.mp h
    exact ⟨hr.body⟩
  case h_3 =>
    obtain ⟨b, hb, rfl⟩ := map_eq_ok_iff.mp h
    exact ⟨Restores.data.optional hv hb⟩
  case h_4 => exact Except.ok.inj h ▸ hr

theorem Legible.decode_written (h : r.Legible) : decode r.written = .ok r := by
  refine read_written ?_ (by simp)
  refine foldlM_enter_cons (enter_field (f := fun m => { method := m })
    (fun _ => rfl) (Decoded.method_write r.method)) ?_
  refine foldlM_enter_cons (enter_unless (f := fun h => { method := r.method, headers := h })
    (fun _ => rfl) (fun he => ?_) (Decoded.headers_write r.headers)) ?_
  case refine_1 => rw [List.isEmpty_iff.mp he]
  exact foldlM_enter_cons (enter_optionalField (f := fun b => ⟨r.method, r.headers, b⟩)
    (fun _ => rfl) rfl h.body) rfl

end ScreenRequest

theorem Restores.screenRequest : Restores ScreenRequest.decode ScreenRequest.written where
  again hv h := (ScreenRequest.legible_of_decode hv h).decode_written
  ne_null _ _ _ := Value.noConfusion

theorem Restores.documented : Restores Except.ok Value.documented :=
  of_eq fun _ _ hv ha => Except.ok.inj ha ▸ hv.documented

namespace RemoteRoute

structure Legible (r : RemoteRoute) : Prop where
  url : Expression.decode r.url.written = .ok r.url
  fallback : Decoded.Keeps .ok Value.documented r.fallback
  request : Decoded.Keeps ScreenRequest.decode ScreenRequest.written r.request

variable {r : RemoteRoute} {v : Value}

theorem legible_of_decode (hv : v.Plain) (h : decode v = .ok r) : r.Legible := by
  refine read_induction (P := Legible) hv ⟨rfl, Decoded.keeps_none, Decoded.keeps_none⟩ ?_ h
  intro r name v r' hv hr h
  split at h
  case h_1 =>
    obtain ⟨_, hu, rfl⟩ := map_eq_ok_iff.mp h
    exact ⟨Expression.restores_string.again hv hu, hr.fallback, hr.request⟩
  case h_2 =>
    obtain ⟨_, _, rfl⟩ := map_eq_ok_iff.mp h
    exact ⟨hr.url, hr.fallback, hr.request⟩
  case h_3 =>
    obtain ⟨_, hf, rfl⟩ := map_eq_ok_iff.mp h
    exact ⟨hr.url, Restores.documented.optional hv hf, hr.request⟩
  case h_4 =>
    obtain ⟨_, hq, rfl⟩ := map_eq_ok_iff.mp h
    exact ⟨hr.url, hr.fallback, Restores.screenRequest.optional hv hq⟩
  case h_5 => exact Except.ok.inj h ▸ hr

theorem Legible.decode_written (h : r.Legible) : decode r.written = .ok r := by
  refine read_written ?_ (by simp [field, Table.contains, Table.get?])
  refine foldlM_enter_cons (enter_field (f := fun u => { url := u }) (fun _ => rfl) h.url) ?_
  refine foldlM_enter_cons (enter_field (f := fun p => { url := r.url, prefetch := p })
    (fun _ => rfl) (Decoded.bool_write r.prefetch)) ?_
  refine foldlM_enter_cons (enter_optionalField
    (f := fun f => { url := r.url, prefetch := r.prefetch, fallback := f })
    (fun _ => rfl) rfl h.fallback) ?_
  exact foldlM_enter_cons (enter_optionalField (f := fun q => ⟨r.url, r.prefetch, r.fallback, q⟩)
    (fun _ => rfl) rfl h.request) rfl

end RemoteRoute

theorem Restores.remoteRoute : Restores RemoteRoute.decode RemoteRoute.written where
  again hv h := (RemoteRoute.legible_of_decode hv h).decode_written
  ne_null _ _ _ := Value.noConfusion

namespace Route

variable {r : Route} {q : RemoteRoute} {v : Value}

theorem field?_written_remote : q.written.field? "screen" = none := by
  cases hf : q.fallback <;> cases hr : q.request <;>
    simp [RemoteRoute.written, Record.written, field, optionalField, hf, hr, Value.field?,
      Value.entries?, Table.get?_cons]

theorem documented_of_field? {document : Value} {name : String} (hv : v.Plain)
    (h : v.field? name = some document) : document.documented = document := by
  obtain ⟨entries, he, hd⟩ := Option.bind_eq_some_iff.mp h
  cases v <;> simp only [Value.entries?, Option.some.injEq, reduceCtorEq] at he
  subst he
  exact (Value.plain_map_iff.mp hv _ (Table.mem_of_get? hd)).documented

end Route

theorem Restores.route : Restores Route.decode Route.written where
  again {v r} hv h := by
    unfold Route.decode at h
    split at h
    case h_1 document hf =>
      obtain rfl := Except.ok.inj h
      have hs : (Route.written (.screen document)).field? "screen" = some document :=
        congrArg some (Route.documented_of_field? hv hf)
      simp only [Route.decode, hs]
    case h_2 hf =>
      split at h
      case h_2 => contradiction
      case h_1 q hq =>
        obtain rfl := Except.ok.inj h
        have hd : RemoteRoute.decode q.written = .ok q := Restores.remoteRoute.again hv hq
        simp only [Route.written, Route.decode, Route.field?_written_remote, hd]
  ne_null {v r} _ _ _ := by cases r <;> exact Value.noConfusion

namespace Navigation

def Legible : Navigation → Prop
  | openUrl url => Expression.decode url.written = .ok url
  | openNative route _ _ => Expression.decode route.written = .ok route
  | present _ route c => Route.decode route.written = .ok route ∧
    Decoded.Keeps NavigationContext.decode NavigationContext.written c
  | back how c => (∀ e, how = .toView e → Expression.decode e.written = .ok e) ∧
    Decoded.Keeps NavigationContext.decode NavigationContext.written c

structure Fields.Legible (f : Fields) : Prop where
  text : ∀ e ∈ f.text, Expression.decode e.written = .ok e
  route : ∀ r ∈ f.route, Route.decode r.written = .ok r
  context : Decoded.Keeps NavigationContext.decode NavigationContext.written f.context

variable {n : Navigation} {kind : Kind} {f f' : Fields} {v : Value} {name : String} {nested : Bool}

theorem Fields.Legible.step (hv : v.Plain) (hf : f.Legible) (h : f.step kind name v = .ok f') :
    f'.Legible := by
  unfold Fields.step at h
  split at h
  case isTrue => exact Except.ok.inj h ▸ hf
  case isFalse =>
    split at h
    case h_1 =>
      obtain ⟨e, he, rfl⟩ := map_eq_ok_iff.mp h
      exact ⟨by simpa using Expression.restores_string.again hv he, hf.route, hf.context⟩
    case h_2 =>
      split at h
      case isTrue =>
        obtain ⟨r, hr, rfl⟩ := map_eq_ok_iff.mp h
        exact ⟨hf.text, by simpa using Restores.route.again hv hr, hf.context⟩
      case isFalse =>
        obtain ⟨e, he, rfl⟩ := map_eq_ok_iff.mp h
        exact ⟨by simpa using Expression.restores_string.again hv he, hf.route, hf.context⟩
    case h_3 | h_4 | h_5 =>
      obtain ⟨_, _, rfl⟩ := map_eq_ok_iff.mp h
      exact ⟨hf.text, hf.route, hf.context⟩
    case h_6 =>
      obtain ⟨c, hc, rfl⟩ := map_eq_ok_iff.mp h
      exact ⟨hf.text, hf.route, Restores.navigationContext.optional hv hc⟩
    case h_7 => exact Except.ok.inj h ▸ hf

theorem Fields.Legible.finish (hf : f.Legible) (h : f.finish kind = some n) : n.Legible := by
  cases kind <;> simp only [Fields.finish, Option.map_eq_some_iff, Option.some.injEq] at h
  case openExternalUrl | openNativeRoute =>
    obtain ⟨e, he, rfl⟩ := h
    exact hf.text e he
  case resetApplication | resetStack | pushStack | pushView =>
    obtain ⟨r, hr, rfl⟩ := h
    exact ⟨hf.route r hr, hf.context⟩
  case popStack | popView =>
    subst h
    exact ⟨by simp, hf.context⟩
  case popToView =>
    obtain ⟨e, he, rfl⟩ := h
    exact ⟨fun e' he' => Return.toView.inj he' ▸ hf.text e he, hf.context⟩

def readAs (nested : Bool) (tag rest : Value) : Decoded Navigation := do
  let kind ← Kind.decode nested tag
  let fields ← Record.read kind.fields [] {} (Fields.step kind) rest
  Decoded.ofOption (fields.finish kind)

theorem decode_map (nested : Bool) (entries : List (String × Value)) :
    decode nested (.map entries) = (do
      let tag ← Decoded.ofOption (Table.get? entries "type")
      readAs nested tag (.map (Table.erase entries "type"))) :=
  rfl

theorem decode_array (nested : Bool) (tag : Value) (items : List Value) :
    decode nested (.array (tag :: items)) = readAs nested tag (.array items) :=
  rfl

theorem legible_of_readAs {tag rest : Value} (hr : rest.Plain) (h : readAs nested tag rest = .ok n) :
    n.Legible := by
  obtain ⟨kind, _, h⟩ := bind_eq_ok_iff.mp h
  obtain ⟨f, hf, h⟩ := bind_eq_ok_iff.mp h
  have hl : f.Legible := by
    refine read_induction (P := Fields.Legible) hr ⟨?_, ?_, Decoded.keeps_none⟩ ?_ hf
    case refine_1 | refine_2 => simp
    case refine_3 => exact fun _ _ _ _ hv hf h => hf.step hv h
  exact hl.finish (Decoded.ofOption_eq_ok_iff.mp h)

theorem legible_of_decode (hv : v.Plain) (h : decode nested v = .ok n) : n.Legible := by
  cases v
  case map entries =>
    obtain ⟨tag, _, h⟩ := bind_eq_ok_iff.mp (decode_map nested entries ▸ h)
    exact legible_of_readAs (hv.erase _) h
  case array items =>
    cases items
    case nil => contradiction
    case cons tag items =>
      rw [decode_array] at h
      exact legible_of_readAs hv.tail h
  all_goals contradiction

theorem decode_name (nested : Bool) (kind : Kind) : Kind.decode nested (.string kind.name) = .ok kind := by
  cases kind <;> rfl

theorem name_mem_fields (n : Navigation) :
    ∀ f ∈ n.writtenFields.tail, ∀ entry ∈ f, entry.1 ∈ n.kind.fields := by
  cases n
  case openUrl | openNative => simp [writtenFields, field, context?, optionalField, kind, Kind.fields]
  case present how _ _ | back how _ =>
    cases how <;>
      simp only [writtenFields, List.tail_cons, List.cons_append, List.nil_append,
        List.forall_mem_cons, forall_mem_optionalField] <;>
      simp [field, kind, Kind.fields, Presentation.controller?]

theorem type_not_mem_fields (kind : Kind) : "type" ∉ kind.fields := by
  cases kind <;> simp [Kind.fields]

theorem decode_written_of (nested : Bool)
    (hf : n.writtenFields.tail.foldlM (enter (Fields.step n.kind)) {} = .ok f)
    (hk : f.finish n.kind = some n) : decode nested n.written = .ok n := by
  have hw : n.written = .map (("type", .string n.kind.name) :: n.writtenFields.tail.filterMap id) := rfl
  have hg : Table.get? (("type", .string n.kind.name) :: n.writtenFields.tail.filterMap id) "type" =
      some (.string n.kind.name) := by simp [Table.get?_cons]
  have he : Table.erase (("type", .string n.kind.name) :: n.writtenFields.tail.filterMap id) "type" =
      n.writtenFields.tail.filterMap id :=
    erase_written fun f hf entry he ht =>
      type_not_mem_fields n.kind (ht ▸ name_mem_fields n f hf entry he)
  have hr : read n.kind.fields [] {} (Fields.step n.kind)
      (.map (n.writtenFields.tail.filterMap id)) = .ok f := read_written hf (by simp)
  rw [hw, decode_map, hg, he]
  simp only [readAs, Decoded.ofOption, bind, Except.bind, decode_name, hr, hk]

theorem Legible.decode_written (h : n.Legible) (nested : Bool) : decode nested n.written = .ok n := by
  cases n
  case openUrl url =>
    refine decode_written_of (f := { text := some url }) nested ?_ rfl
    exact foldlM_enter_cons (enter_field (f := fun e => { text := some e }) (fun _ => rfl) h) rfl
  case openNative route data reset =>
    refine decode_written_of (f := { text := some route, data := data, resetApplication := reset })
      nested ?_ rfl
    refine foldlM_enter_cons (enter_field (f := fun e => { text := some e }) (fun _ => rfl) h) ?_
    refine foldlM_enter_cons (enter_unless (f := fun d => { text := some route, data := d })
      (fun _ => rfl) (fun he => ?_) (Decoded.headers_write data)) ?_
    case refine_1 => rw [List.isEmpty_iff.mp he]
    exact foldlM_enter_cons (enter_field
      (f := fun b => { text := some route, data := data, resetApplication := b })
      (fun _ => rfl) (Decoded.bool_write reset)) rfl
  case present how route c =>
    obtain ⟨hr, hc⟩ := h
    refine decode_written_of (f := ⟨none, some route, how.controller?, [], false, c⟩) nested ?_
      (by cases how <;> rfl)
    refine foldlM_enter_cons (enter_field (f := fun r => { route := some r })
      (fun _ => by cases how <;> rfl) hr) ?_
    refine foldlM_enter_cons (b := { route := some route, controller := how.controller? }) ?_ ?_
    case refine_1 =>
      -- the other two kinds have no controller
      cases how
      case resetStack | pushView => rfl
      case resetApplication i | pushStack i =>
        exact enter_optionalField (f := fun i => (⟨none, some route, i, [], false, none⟩ : Fields))
          (fun _ => rfl) rfl (Decoded.keeps_string i)
    case refine_2 =>
      exact foldlM_enter_cons (enter_optionalField
        (f := fun c => ⟨none, some route, how.controller?, [], false, c⟩)
        (fun _ => by cases how <;> rfl) rfl hc) rfl
  case back how c =>
    obtain ⟨ht, hc⟩ := h
    cases how
    case stack | view =>
      refine decode_written_of (f := { context := c }) nested ?_ rfl
      exact foldlM_enter_cons (enter_optionalField (f := fun c => { context := c })
        (fun _ => rfl) rfl hc) rfl
    case toView target =>
      refine decode_written_of (f := { text := some target, context := c }) nested ?_ rfl
      refine foldlM_enter_cons (enter_field (f := fun e => { text := some e })
        (fun _ => rfl) (ht target rfl)) ?_
      exact foldlM_enter_cons (enter_optionalField (f := fun c => { text := some target, context := c })
        (fun _ => rfl) rfl hc) rfl

end Navigation

theorem Restores.navigation (nested : Bool) :
    Restores (Navigation.decode nested) Navigation.written where
  again hv h := (Navigation.legible_of_decode hv h).decode_written nested
  ne_null _ _ _ := Value.noConfusion

end BindingEngine
