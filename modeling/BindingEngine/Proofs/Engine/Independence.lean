import BindingEngine.Proofs.Data.Reads
import BindingEngine.Proofs.Engine.Reachable

namespace BindingEngine

-- What is evaluated asks its resolver for nothing but the contexts `ids`, and lists none of them twice.
structure Declares {β : Type} (evaluate : Resolver → β) (ids : List String) : Prop where
  nodup : ids.Nodup
  only (r r' : Resolver) : (∀ id ∈ ids, r id = r' id) → evaluate r = evaluate r'

theorem Declares.of_not_mem {β : Type} {evaluate : Resolver → β} {ids : List String}
    (h : Declares evaluate ids) {id : String} (hid : id ∉ ids) {r r' : Resolver}
    (hr : ∀ id', id' ≠ id → r id' = r' id') : evaluate r = evaluate r' :=
  h.only r r' fun id' hid' => hr id' fun he => hid (he ▸ hid')

theorem Expr.declares (e : Expr) : Declares (fun r => e.evaluate r) e.contextIds where
  nodup := distinct_nodup _
  only _ _ h := e.evaluate_congr fun id hid => h id (mem_distinct.mpr hid)

theorem Template.declares (t : Template) : Declares t.evaluate t.contextIds where
  nodup := t.contextIds_nodup
  only _ _ h := t.evaluate_congr h

theorem Expression.declares {α : Type} [Attribute α] (x : Expression α) :
    Declares x.evaluate x.contextIds where
  nodup := x.contextIds_nodup
  only _ _ h := x.evaluate_congr h

theorem Data.declares (d : Data) : Declares (fun r => d.evaluate r) d.contextIds where
  nodup := distinct_nodup _
  only _ _ h := d.evaluate_congr h

namespace Engine

variable {e e' : Engine} {id id' : String} {n m : NodeId} {t : Template}

def ChangesOnly (e e' : Engine) (id : String) : Prop :=
  ∀ id' m, id' ≠ id → e'.resolve id' m = e.resolve id' m

theorem changesOnly_setContext (e : Engine) (id : String) (p : Path) (v : Value) (n : NodeId) :
    e.ChangesOnly (e.setContext id p v n).2 id := by
  intro id' m hid
  have hm := mutation e id p v n
  generalize (e.setContext id p v n).1 = r at hm
  generalize (e.setContext id p v n).2 = e' at hm ⊢
  cases hm
  case changed l old new hl _ _ _ =>
    have hr : ¬(id' = id ∧ e.locate? id m = some l) := fun h => hid h.1
    exact (resolve_setAt hl).trans (if_neg hr)
  all_goals rfl

theorem changesOnly_declareContext (e : Engine) (n : NodeId) (x : Context) :
    e.ChangesOnly (e.declareContext n x).2 x.id := by
  intro id' m hid
  simp only [declareContext, report]
  cases hd : e.tree.declare n x
  case error => rfl
  case ok t' => exact Tree.resolve_declare hd fun h => hid h.1

theorem evaluate_of_changesOnly (h : e.ChangesOnly e' id) (ht : id ∉ t.contextIds)
    (implicit : List Context) : (e'.evaluate t m implicit).1 = (e.evaluate t m implicit).1 := by
  refine t.declares.of_not_mem ht fun id' hid => ?_
  have hr : (e'.scope m).resolve id' = (e.scope m).resolve id' := h id' m hid
  -- the implicit contexts are asked first, and they are the same
  simp only [Scope.resolve, scope] at hr ⊢
  cases implicit.find? (·.id = id')
  case none => exact hr
  case some => rfl

-- Whatever is evaluated depends on the contexts that it declares and on no other. So a template shows
-- the same at every node when a context that it does not reference is changed or declared anywhere.
theorem evaluation_declares :
    (∀ x : Expr, Declares (fun r => x.evaluate r) x.contextIds) ∧
    (∀ t : Template, Declares t.evaluate t.contextIds) ∧
    (∀ (α : Type) [Attribute α] (x : Expression α), Declares x.evaluate x.contextIds) ∧
    (∀ d : Data, Declares (fun r => d.evaluate r) d.contextIds) ∧
    ∀ (t : Template) (id : String), t.references id = false →
      (∀ r r' : Resolver, (∀ id', id' ≠ id → r id' = r' id') → t.evaluate r = t.evaluate r') ∧
      ∀ (e : Engine) (n m : NodeId) (implicit : List Context),
        (∀ p v, ((e.setContext id p v n).2.evaluate t m implicit).1 = (e.evaluate t m implicit).1) ∧
        ∀ v, ((e.declareContext n ⟨id, v⟩).2.evaluate t m implicit).1 =
          (e.evaluate t m implicit).1 := by
  refine ⟨Expr.declares, Template.declares, fun _ _ => Expression.declares, Data.declares, ?_⟩
  intro t id href
  have ht : id ∉ t.contextIds := of_decide_eq_false href
  refine ⟨fun _ _ hr => t.declares.of_not_mem ht hr, fun e n m implicit => ⟨fun p v => ?_, fun v => ?_⟩⟩
  case refine_1 => exact evaluate_of_changesOnly (e.changesOnly_setContext id p v n) ht implicit
  case refine_2 => exact evaluate_of_changesOnly (e.changesOnly_declareContext n ⟨id, v⟩) ht implicit

-- A template that looks into the global context at the position that another context holds.
def selecting : Template :=
  ⟨"@\x7bglobal[i]\x7d", [.binding (.read globalId [.computed (.read "i" [])])]⟩

def selection : Engine :=
  (start (.array [.int 7, .int 8]) none).run
    [.createRoot, .declareContext ⟨0, 0⟩ ⟨"i", .int 1⟩, .addChild ⟨0, 0⟩,
      .declareContext ⟨1, 0⟩ ⟨"j", .int 0⟩]

theorem selecting_declares : selecting.references "j" = false ∧
    ((selection.setContext "j" [] (.int 5) ⟨1, 0⟩).2.evaluate selecting ⟨1, 0⟩).1 = .int 8 := by
  have hj : selecting.references "j" = false := by decide
  obtain ⟨_, _, _, _, h⟩ := evaluation_declares
  obtain ⟨hs, _⟩ := (h selecting "j" hj).2 selection ⟨1, 0⟩ ⟨1, 0⟩ []
  exact ⟨hj, (hs [] (.int 5)).trans rfl⟩

end Engine

end BindingEngine
