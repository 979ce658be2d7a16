import BindingEngine.Action.Basic
import BindingEngine.Proofs.Navigation.RoundTrip

namespace BindingEngine

open Record

namespace Action

inductive Legible : Action → Prop where
  | setContext {id path value}
    (hp : Decoded.Keeps Decoded.path (fun p => .string (Path.text p)) path)
    (hv : Decoded.data value.written = .ok value) :
    Legible (.setContext id path value)
  | condition {test onTrue onFalse}
    (ht : Expression.decode test.written = .ok test)
    (htrue : ∀ a ∈ onTrue, Legible a)
    (hfalse : ∀ a ∈ onFalse, Legible a) :
    Legible (.condition test onTrue onFalse)
  | sendRequest {url method headers data onSuccess onError onFinish}
    (hu : Expression.decode url.written = .ok url)
    (hm : Decoded.Keeps Expression.decode Expression.written method)
    (hh : Decoded.Keeps Expression.decode Expression.written headers)
    (hd : Decoded.Keeps Decoded.data Data.written data)
    (hsuccess : ∀ a ∈ onSuccess, Legible a)
    (herror : ∀ a ∈ onError, Legible a)
    (hfinish : ∀ a ∈ onFinish, Legible a) :
    Legible (.sendRequest url method headers data onSuccess onError onFinish)
  | navigate {n : Navigation} (hn : Navigation.decode true n.written = .ok n) : Legible (.navigate n)
  | submitForm : Legible .submitForm

def kind : Action → Kind
  | setContext _ _ _ => .setContext
  | condition _ _ _ => .condition
  | sendRequest _ _ _ _ _ _ _ => .sendRequest
  | navigate _ => .navigate
  | submitForm => .submitForm

variable {kind : Kind} {name : String} {v : Value} {fields : List Field} {a : Action} {nested : Bool}

namespace Field

def Legible : Field → Prop
  | contextId _ => True
  | path p => Decoded.Keeps Decoded.path (fun p => .string (Path.text p)) p
  | value d => Decoded.data d.written = .ok d
  | test e => Expression.decode e.written = .ok e
  | url e => Expression.decode e.written = .ok e
  | method e => Decoded.Keeps Expression.decode Expression.written e
  | headers e => Decoded.Keeps Expression.decode Expression.written e
  | data d => Decoded.Keeps Decoded.data Data.written d
  | handlers _ actions => ∀ a ∈ actions, a.Legible

theorem legible_of_decode (hv : v.Plain) (h : decode kind name v = .ok fields) :
    ∀ f ∈ fields, f.Legible := by
  unfold decode at h
  split at h
  case h_9 => simp [← Except.ok.inj h]
  all_goals
    obtain ⟨x, hx, rfl⟩ := map_eq_ok_iff.mp h
    refine List.forall_mem_singleton.mpr ?_
  case h_1 => trivial
  case h_2 => exact Restores.path.optional hv hx
  case h_3 => exact Restores.data.again hv hx
  case h_4 => exact Expression.restores_bool.again hv hx
  case h_5 => exact Expression.restores_string.again hv hx
  case h_6 => exact Expression.restores_method.optional hv hx
  case h_7 => exact Expression.restores_headers.optional hv hx
  case h_8 => exact Restores.data.optional hv hx

namespace Legible

variable {f : Field}

theorem path? (h : f.Legible) : Decoded.Keeps Decoded.path (fun p => .string (Path.text p)) f.path? := by
  cases f
  case path => exact h
  all_goals exact Decoded.keeps_none

theorem value? (h : f.Legible) : ∀ d ∈ f.value?, Decoded.data d.written = .ok d := by
  cases f
  case value => simpa [Field.value?, Field.Legible] using h
  all_goals simp [Field.value?]

theorem test? (h : f.Legible) : ∀ e ∈ f.test?, Expression.decode e.written = .ok e := by
  cases f
  case test => simpa [Field.test?, Field.Legible] using h
  all_goals simp [Field.test?]

theorem url? (h : f.Legible) : ∀ e ∈ f.url?, Expression.decode e.written = .ok e := by
  cases f
  case url => simpa [Field.url?, Field.Legible] using h
  all_goals simp [Field.url?]

theorem method? (h : f.Legible) : Decoded.Keeps Expression.decode Expression.written f.method? := by
  cases f
  case method => exact h
  all_goals exact Decoded.keeps_none

theorem headers? (h : f.Legible) : Decoded.Keeps Expression.decode Expression.written f.headers? := by
  cases f
  case headers => exact h
  all_goals exact Decoded.keeps_none

theorem data? (h : f.Legible) : Decoded.Keeps Decoded.data Data.written f.data? := by
  cases f
  case data => exact h
  all_goals exact Decoded.keeps_none

theorem handlers? (h : f.Legible) (name : String) :
    ∀ actions ∈ f.handlers? name, ∀ a ∈ actions, a.Legible := by
  cases f
  case handlers name' actions =>
    simp only [Field.handlers?, Option.mem_def, Option.ite_none_right_eq_some, Option.some.injEq]
    rintro _ ⟨_, rfl⟩
    exact h
  all_goals simp [Field.handlers?]

end Legible

end Field

theorem of_findSome? {α : Type} {p : α → Prop} {f : Field → Option α}
    (hf : ∀ field ∈ fields, ∀ x ∈ f field, p x) : ∀ x ∈ fields.findSome? f, p x := by
  intro x hx
  obtain ⟨field, hm, hx⟩ := List.exists_of_findSome?_eq_some hx
  exact hf field hm x hx

theorem legible_of_ofFields? (hf : ∀ f ∈ fields, f.Legible) (h : ofFields? kind fields = some a) :
    a.Legible := by
  have hh (name : String) : ∀ a ∈ (fields.findSome? (Field.handlers? name)).getD [], a.Legible := by
    cases hs : fields.findSome? (Field.handlers? name)
    case none => simp
    case some actions => exact of_findSome? (fun f hm => (hf f hm).handlers? name) actions hs
  cases kind
  case setContext =>
    obtain ⟨id, _, h⟩ := Option.bind_eq_some_iff.mp h
    obtain rfl := Option.some.inj h
    refine .setContext (of_findSome? fun f hm => (hf f hm).path?) ?_
    cases hs : fields.findSome? Field.value?
    case none => rfl
    case some d => exact of_findSome? (fun f hm => (hf f hm).value?) d hs
  case condition =>
    obtain ⟨test, ht, h⟩ := Option.bind_eq_some_iff.mp h
    obtain rfl := Option.some.inj h
    exact .condition (of_findSome? (fun f hm => (hf f hm).test?) test ht) (hh _) (hh _)
  case sendRequest =>
    obtain ⟨url, hu, h⟩ := Option.bind_eq_some_iff.mp h
    obtain rfl := Option.some.inj h
    exact .sendRequest (of_findSome? (fun f hm => (hf f hm).url?) url hu)
      (of_findSome? fun f hm => (hf f hm).method?) (of_findSome? fun f hm => (hf f hm).headers?)
      (of_findSome? fun f hm => (hf f hm).data?) (hh _) (hh _) (hh _)
  case submitForm => exact Option.some.inj h ▸ .submitForm
  case navigate => contradiction

def decodeField (kind : Kind) (name : String) (v : Value) : Decoded (List Field) :=
  if name ∈ kind.handlers then (decodeHandlers v).map fun actions => [.handlers name actions]
  else Field.decode kind name v

theorem decode_map (nested : Bool) (entries : List (String × Value)) :
    decode nested (.map entries) = (do
      let tag ← Decoded.ofOption (Table.get? entries "_action_")
      let kind ← Kind.decode nested tag
      if kind = .navigate then
        navigate <$> Navigation.decode true (.map (Table.erase entries "_action_"))
      else
        let fields ← decodeEntries kind entries
        Decoded.ofOption (ofFields? kind fields)) := by
  rw [decode]

theorem decode_array (nested : Bool) (tag : Value) (items : List Value) :
    decode nested (.array (tag :: items)) = (do
      let kind ← Kind.decode nested tag
      if kind = .navigate then navigate <$> Navigation.decode true (.array items)
      else
        let fields ← decodeFields kind kind.fields items
        Decoded.ofOption (ofFields? kind fields)) := by
  rw [decode]

theorem decodeEntries_cons (entries : List (String × Value)) :
    decodeEntries kind ((name, v) :: entries) = (do
      let field ← decodeField kind name v
      let fields ← decodeEntries kind entries
      return field ++ fields) := by
  rw [decodeEntries, decodeField]
  split <;> rfl

theorem decodeFields_cons (names : List String) (vs : List Value) :
    decodeFields kind (name :: names) (v :: vs) = (do
      let field ← decodeField kind name v
      let fields ← decodeFields kind names vs
      return field ++ fields) := by
  rw [decodeFields, decodeField]
  split <;> rfl

mutual

-- By induction on the document, with the actions in its handlers.
theorem legible_of_decode {nested : Bool} {a : Action} (v : Value) (hv : v.Plain)
    (h : decode nested v = .ok a) : a.Legible := by
  match v with
  | .map entries =>
    rw [decode_map] at h
    obtain ⟨tag, _, h⟩ := bind_eq_ok_iff.mp h
    obtain ⟨kind, _, h⟩ := bind_eq_ok_iff.mp h
    split at h
    case isTrue =>
      obtain ⟨n, hn, rfl⟩ := map_eq_ok_iff.mp h
      exact .navigate ((Restores.navigation true).again (hv.erase _) hn)
    case isFalse =>
      obtain ⟨fields, hf, h⟩ := bind_eq_ok_iff.mp h
      have hl := legible_of_decodeEntries kind entries (Value.plain_map_iff.mp hv) hf
      exact legible_of_ofFields? hl (Decoded.ofOption_eq_ok_iff.mp h)
  | .array (tag :: items) =>
    rw [decode_array] at h
    obtain ⟨kind, _, h⟩ := bind_eq_ok_iff.mp h
    split at h
    case isTrue =>
      obtain ⟨n, hn, rfl⟩ := map_eq_ok_iff.mp h
      exact .navigate ((Restores.navigation true).again hv.tail hn)
    case isFalse =>
      obtain ⟨fields, hf, h⟩ := bind_eq_ok_iff.mp h
      have hl := legible_of_decodeFields kind kind.fields items (Value.plain_array_iff.mp hv.tail) hf
      exact legible_of_ofFields? hl (Decoded.ofOption_eq_ok_iff.mp h)

theorem legible_of_decodeItems {actions : List Action} (vs : List Value) (hv : ∀ v ∈ vs, v.Plain)
    (h : decodeItems vs = .ok actions) : ∀ a ∈ actions, a.Legible := by
  match vs with
  | [] => simp [← Except.ok.inj h]
  | v :: vs =>
    obtain ⟨hv, hvs⟩ := List.forall_mem_cons.mp hv
    obtain ⟨a, ha, h⟩ := bind_eq_ok_iff.mp h
    obtain ⟨actions, hs, he⟩ := bind_eq_ok_iff.mp h
    obtain rfl := Except.ok.inj he
    exact List.forall_mem_cons.mpr ⟨legible_of_decode v hv ha, legible_of_decodeItems vs hvs hs⟩

theorem legible_of_decodeField {fields : List Field} (kind : Kind) (name : String) (v : Value)
    (hv : v.Plain) (h : decodeField kind name v = .ok fields) : ∀ f ∈ fields, f.Legible := by
  unfold decodeField at h
  split at h
  case isTrue =>
    obtain ⟨actions, ha, rfl⟩ := map_eq_ok_iff.mp h
    refine List.forall_mem_singleton.mpr ?_
    match v with
    | .array items => exact legible_of_decodeItems items (Value.plain_array_iff.mp hv) ha
  case isFalse => exact Field.legible_of_decode hv h

theorem legible_of_decodeEntries {fields : List Field} (kind : Kind) (entries : List (String × Value))
    (hv : ∀ entry ∈ entries, entry.2.Plain) (h : decodeEntries kind entries = .ok fields) :
    ∀ f ∈ fields, f.Legible := by
  match entries with
  | [] => simp [← Except.ok.inj h]
  | (name, v) :: entries =>
    obtain ⟨hv, hvs⟩ := List.forall_mem_cons.mp hv
    rw [decodeEntries_cons] at h
    obtain ⟨field, hf, h⟩ := bind_eq_ok_iff.mp h
    obtain ⟨fields, hs, he⟩ := bind_eq_ok_iff.mp h
    obtain rfl := Except.ok.inj he
    exact List.forall_mem_append.mpr
      ⟨legible_of_decodeField kind name v hv hf, legible_of_decodeEntries kind entries hvs hs⟩

theorem legible_of_decodeFields {fields : List Field} (kind : Kind) (names : List String)
    (vs : List Value) (hv : ∀ v ∈ vs, v.Plain) (h : decodeFields kind names vs = .ok fields) :
    ∀ f ∈ fields, f.Legible := by
  match names, vs with
  | [], [] | _ :: _, [] => simp [← Except.ok.inj h]
  | name :: names, v :: vs =>
    obtain ⟨hv, hvs⟩ := List.forall_mem_cons.mp hv
    rw [decodeFields_cons] at h
    obtain ⟨field, hf, h⟩ := bind_eq_ok_iff.mp h
    obtain ⟨fields, hs, he⟩ := bind_eq_ok_iff.mp h
    obtain rfl := Except.ok.inj he
    exact List.forall_mem_append.mpr
      ⟨legible_of_decodeField kind name v hv hf, legible_of_decodeFields kind names vs hvs hs⟩

end

section Written

variable {gs : List Field} {written : List (Option (String × Value))} {actions : List Action}

-- The fields of an action are read from those that it is written with.
def Yields (kind : Kind) (written : List (Option (String × Value))) (fs : List Field) : Prop :=
  decodeEntries kind (written.filterMap id) = .ok fs

theorem yields_nil : Yields kind [] [] :=
  rfl

theorem Yields.field (hr : Yields kind written gs) (h : decodeField kind name v = .ok fields) :
    Yields kind (Record.field name v :: written) (fields ++ gs) := by
  have hw : (Record.field name v :: written).filterMap id = (name, v) :: written.filterMap id := rfl
  rw [Yields, hw, decodeEntries_cons, h, hr]
  rfl

theorem Yields.required {β : Type} {decode : Value → Decoded β} {write : β → Value} {x : β}
    {f : β → Field} (hr : Yields kind written gs) (hx : decode (write x) = .ok x)
    (h : ∀ v, decodeField kind name v = (decode v).map fun x => [f x]) :
    Yields kind (Record.field name (write x) :: written) (f x :: gs) := by
  have hd : decodeField kind name (write x) = .ok [f x] := by
    rw [h, hx]
    rfl
  exact hr.field hd

theorem Yields.optional {β : Type} {decode : Value → Decoded β} {write : β → Value} {x : Option β}
    {f : Option β → Field} (hr : Yields kind written gs) (hx : Decoded.Keeps decode write x)
    (h : ∀ v, decodeField kind name v = (Decoded.optional decode v).map fun x => [f x]) :
    Yields kind (optionalField name write x :: written) ((x.toList.map fun y => f (some y)) ++ gs) := by
  cases x
  case none => exact hr
  case some y =>
    refine hr.field ?_
    rw [h, Decoded.optional_eq_some_iff.mpr (hx y rfl)]
    rfl

theorem decodeItems_written (h : ∀ a ∈ actions, decode true a.written = .ok a) :
    decodeItems (writtenAll actions) = .ok actions := by
  induction actions
  case nil => rfl
  case cons a actions hi =>
    obtain ⟨ha, has⟩ := List.forall_mem_cons.mp h
    rw [writtenAll, decodeItems, ha, hi has]
    rfl

def handled (name : String) (actions : List Action) : List Field :=
  if actions.isEmpty then [] else [.handlers name actions]

theorem Yields.handlers (hr : Yields kind written gs) (hn : name ∈ kind.handlers)
    (h : ∀ a ∈ actions, decode true a.written = .ok a) :
    Yields kind (handlerField name (writtenAll actions) :: written) (handled name actions ++ gs) := by
  cases actions
  case nil => exact hr
  case cons a actions =>
    refine hr.field ?_
    rw [decodeField, if_pos hn, decodeHandlers, decodeItems_written h]
    rfl

theorem findSome?_optional {β γ : Type} {f : Field → Option γ} {g : β → Field} {x : Option β} :
    (x.toList.map g).findSome? f = x.bind fun y => f (g y) := by
  cases x <;> simp

theorem findSome?_handled {γ : Type} {f : Field → Option γ} :
    (handled name actions).findSome? f =
      if actions.isEmpty then none else f (.handlers name actions) := by
  unfold handled
  split <;> simp

theorem getD_handled (actions : List Action) :
    (if actions = [] then none else some actions).getD [] = actions := by
  cases actions <;> rfl

def collected : Action → List Field
  | setContext id path value =>
    .contextId id :: ((path.toList.map fun p => .path (some p)) ++ [.value value])
  | condition test onTrue onFalse =>
    .test test :: (handled "onTrue" onTrue ++ (handled "onFalse" onFalse ++ []))
  | sendRequest url method headers data onSuccess onError onFinish =>
    .url url :: ((method.toList.map fun m => .method (some m)) ++
      ((headers.toList.map fun h => .headers (some h)) ++ ((data.toList.map fun d => .data (some d)) ++
        (handled "onSuccess" onSuccess ++ (handled "onError" onError ++
          (handled "onFinish" onFinish ++ []))))))
  | _ => []

theorem ofFields?_collected (h : a.kind ≠ .navigate) : ofFields? a.kind a.collected = some a := by
  cases a
  case navigate => contradiction
  case submitForm => rfl
  all_goals
    simp [ofFields?, Action.kind, collected, List.findSome?_cons, List.findSome?_append, findSome?_optional,
      findSome?_handled, Field.contextId?, Field.path?, Field.value?, Field.test?, Field.url?,
      Field.method?, Field.headers?, Field.data?, Field.handlers?, getD_handled]

theorem decode_name (nested : Bool) (kind : Kind) : Kind.decode nested (.string kind.name) = .ok kind := by
  cases kind <;> rfl

theorem decode_written_of (nested : Bool) (hk : a.kind ≠ .navigate)
    (hr : Yields a.kind written a.collected) :
    decode nested (Record.written (Record.field "_action_" (.string a.kind.name) :: written)) =
      .ok a := by
  have ht : decodeField a.kind "_action_" (.string a.kind.name) = .ok [] := by
    cases a.kind <;> rfl
  have hf : decodeEntries a.kind
      ((Record.field "_action_" (.string a.kind.name) :: written).filterMap id) =
        .ok a.collected := hr.field ht
  have hg : Table.get? ((Record.field "_action_" (.string a.kind.name) :: written).filterMap id)
      "_action_" = some (.string a.kind.name) := by simp [Record.field, Table.get?_cons]
  rw [Record.written, decode_map, hg]
  simp only [Decoded.ofOption, bind, Except.bind, decode_name, if_neg hk, hf, ofFields?_collected hk]

end Written

theorem action_not_mem_fields (kind : Navigation.Kind) : "_action_" ∉ kind.fields := by
  cases kind <;> simp [Navigation.Kind.fields]

theorem decode_written_navigate {n : Navigation} (h : Navigation.decode true n.written = .ok n) :
    decode nested (written (.navigate n)) = .ok (.navigate n) := by
  have hn : ∀ f ∈ n.writtenFields, ∀ entry ∈ f, entry.1 ≠ "_action_" := by
    refine List.forall_mem_cons.mpr ⟨by simp [Record.field], fun f hf entry he ht => ?_⟩
    exact action_not_mem_fields n.kind (ht ▸ Navigation.name_mem_fields n f hf entry he)
  have he : Table.erase (("_action_", .string "navigate") :: n.writtenFields.filterMap id) "_action_" =
      n.writtenFields.filterMap id := erase_written hn
  have hg : Table.get? (("_action_", .string "navigate") :: n.writtenFields.filterMap id) "_action_" =
      some (.string "navigate") := by simp [Table.get?_cons]
  have hw : written (.navigate n) =
      .map (("_action_", .string "navigate") :: n.writtenFields.filterMap id) := by rw [written]; rfl
  have hk : Kind.decode nested (.string "navigate") = .ok .navigate := decode_name nested .navigate
  have hd : Navigation.decode true (.map (n.writtenFields.filterMap id)) = .ok n := h
  rw [hw, decode_map, hg, he, hd]
  simp only [Decoded.ofOption, bind, Except.bind, hk, if_true]
  rfl

-- By induction on the actions in the handlers.
theorem Legible.decode_written (h : a.Legible) (nested : Bool) : decode nested a.written = .ok a := by
  induction h generalizing nested
  case setContext id path value hp hv =>
    refine decode_written_of (a := .setContext id path value) nested (by simp [Action.kind]) ?_
    refine .required (f := .contextId) ?_ (Decoded.string_write id) fun _ => rfl
    refine .optional (f := .path) ?_ hp fun _ => rfl
    exact .required (f := .value) yields_nil hv fun _ => rfl
  case condition test onTrue onFalse ht _ _ htrue hfalse =>
    refine decode_written_of (a := .condition test onTrue onFalse) nested (by simp [Action.kind]) ?_
    refine .required (f := .test) ?_ ht fun _ => rfl
    refine .handlers ?_ (by simp [Kind.handlers, Action.kind]) fun a ha => htrue a ha true
    exact .handlers yields_nil (by simp [Kind.handlers, Action.kind]) fun a ha => hfalse a ha true
  case sendRequest url method headers data onSuccess onError onFinish hu hm hh hd _ _ _ hs he hf =>
    refine decode_written_of (a := .sendRequest url method headers data onSuccess onError onFinish) nested
      (by simp [Action.kind]) ?_
    refine .required (f := .url) ?_ hu fun _ => rfl
    refine .optional (f := .method) ?_ hm fun _ => rfl
    refine .optional (f := .headers) ?_ hh fun _ => rfl
    refine .optional (f := .data) ?_ hd fun _ => rfl
    refine .handlers ?_ (by simp [Kind.handlers, Action.kind]) fun a ha => hs a ha true
    refine .handlers ?_ (by simp [Kind.handlers, Action.kind]) fun a ha => he a ha true
    exact .handlers yields_nil (by simp [Kind.handlers, Action.kind]) fun a ha => hf a ha true
  case navigate n hn => exact decode_written_navigate hn
  case submitForm =>
    exact decode_written_of (a := .submitForm) nested (by simp [Action.kind]) yields_nil

end Action

theorem Restores.action (nested : Bool) : Restores (Action.decode nested) Action.written where
  again hv h := (Action.legible_of_decode _ hv h).decode_written nested
  ne_null {_ a} _ _ _ := by cases a <;> simp [Action.written, Record.written]

namespace Form

structure Legible (f : Form) : Prop where
  onSubmit : ∀ a ∈ f.onSubmit, a.Legible
  onValidationError : ∀ a ∈ f.onValidationError, a.Legible

variable {f : Form} {v : Value} {actions : List Action}

theorem legible_of_decodeAll (hv : v.Plain) (h : Action.decodeAll v = .ok actions) :
    ∀ a ∈ actions, a.Legible := by
  cases v <;> try contradiction
  case array items =>
    intro a ha
    obtain ⟨v, hm, hd⟩ := exists_of_mapM_eq_ok h a ha
    exact Action.legible_of_decode v (Value.plain_array_iff.mp hv v hm) hd

theorem legible_of_decode (hv : v.Plain) (h : decode v = .ok f) : f.Legible := by
  refine read_induction (P := Legible) hv ⟨by simp, by simp⟩ ?_ h
  intro f name v f' hv hf h
  split at h
  case h_1 =>
    obtain ⟨_, ha, rfl⟩ := map_eq_ok_iff.mp h
    exact ⟨legible_of_decodeAll hv ha, hf.onValidationError⟩
  case h_2 =>
    obtain ⟨_, ha, rfl⟩ := map_eq_ok_iff.mp h
    exact ⟨hf.onSubmit, legible_of_decodeAll hv ha⟩
  case h_3 => exact Except.ok.inj h ▸ hf

def handlersWritten (actions : List Action) : Value :=
  .array (Action.writtenAll actions)

theorem handlerField_eq (name : String) (actions : List Action) :
    Action.handlerField name (Action.writtenAll actions) =
      if actions.isEmpty then none else field name (handlersWritten actions) := by
  cases actions <;> rfl

theorem decodeAll_written (h : ∀ a ∈ actions, a.Legible) :
    Action.decodeAll (handlersWritten actions) = .ok actions := by
  have hw : Action.writtenAll actions = actions.map Action.written := by
    clear h
    induction actions
    case nil => rfl
    case cons a actions hi => rw [Action.writtenAll, hi, List.map_cons]
  rw [handlersWritten, Action.decodeAll, hw]
  exact mapM_map_eq_ok fun a ha => (h a ha).decode_written false

theorem Legible.decode_written (h : f.Legible) : decode f.written = .ok f := by
  refine read_written ?_ (by simp)
  rw [handlerField_eq, handlerField_eq]
  refine foldlM_enter_cons (enter_unless (f := fun actions => { onSubmit := actions })
    (fun _ => rfl) (fun he => ?_) (decodeAll_written h.onSubmit)) ?_
  case refine_1 => rw [List.isEmpty_iff.mp he]
  refine foldlM_enter_cons (enter_unless (f := fun actions => ⟨f.onSubmit, actions⟩)
    (fun _ => rfl) (fun he => ?_) (decodeAll_written h.onValidationError)) rfl
  rw [List.isEmpty_iff.mp he]

end Form

theorem Restores.form : Restores Form.decode Form.written where
  again hv h := (Form.legible_of_decode hv h).decode_written
  ne_null _ _ _ := Value.noConfusion

-- What is read from a document without escaped openings is read again from what it is written as.
theorem documents_restored {v : Value} (hv : v.Plain) :
    (∀ nested a, Action.decode nested v = .ok a → Action.decode nested a.written = .ok a) ∧
    (∀ f, Form.decode v = .ok f → Form.decode f.written = .ok f) ∧
    (∀ c, NavigationContext.decode v = .ok c → NavigationContext.decode c.written = .ok c) ∧
    ∀ r, Route.decode v = .ok r → Route.decode r.written = .ok r :=
  ⟨fun nested _ => (Restores.action nested).again hv, fun _ => Restores.form.again hv,
    fun _ => Restores.navigationContext.again hv, fun _ => Restores.route.again hv⟩

-- A document that can be read as an action, a form, a navigation context and a route.
def manifold : Value :=
  .map [("_action_", .string "condition"), ("condition", .bool true),
    ("onTrue", .array [.map [("_action_", .string "navigate"), ("type", .string "popView")]]),
    ("onSubmit", .array [.map [("_action_", .string "submitForm")]]),
    ("path", .string "a['b c'][2]"), ("value", .array [.int 1, .null]), ("screen", .string "home")]

theorem manifold_restored :
    Action.decode false (Action.condition (.value true) [.navigate (.back .view none)] []).written =
      .ok (.condition (.value true) [.navigate (.back .view none)] []) ∧
    Form.decode (Form.mk [.submitForm] []).written = .ok ⟨[.submitForm], []⟩ ∧
    NavigationContext.decode (NavigationContext.mk (some [.key "a", .key "b c", .index 2])
      (.value (.array [.int 1, .null]))).written =
        .ok ⟨some [.key "a", .key "b c", .index 2], .value (.array [.int 1, .null])⟩ ∧
    Route.decode (Route.screen (.string "home")).written = .ok (.screen (.string "home")) := by
  have hv : manifold.Plain := ⟨rfl, by decide⟩
  obtain ⟨ha, hf, hc, hr⟩ := documents_restored hv
  exact ⟨ha false _ rfl, hf _ rfl, hc _ rfl, hr _ rfl⟩

end BindingEngine
