import BindingEngine.Document.Attribute
import BindingEngine.Proofs.Expr.Reads

namespace BindingEngine

variable {r r' : Resolver}

namespace Data

mutual

theorem evaluate_congr_of_reads (d : Data) (h : ∀ id ∈ d.reads, r id = r' id) :
    d.evaluate r = d.evaluate r' := by
  match d with
  | .value v => rfl
  | .binding t =>
    simp only [reads] at h
    exact t.evaluate_congr h
  | .array items =>
    simp only [reads] at h
    simp only [evaluate, evaluateItems_congr items h]
  | .map entries =>
    simp only [reads] at h
    simp only [evaluate, evaluateEntries_congr entries h]

theorem evaluateItems_congr (items : List Data) (h : ∀ id ∈ itemReads items, r id = r' id) :
    evaluateItems r items = evaluateItems r' items := by
  match items with
  | [] => rfl
  | d :: ds =>
    simp only [itemReads, List.forall_mem_append] at h
    simp only [evaluateItems, evaluate_congr_of_reads d h.1, evaluateItems_congr ds h.2]

theorem evaluateEntries_congr (entries : List (String × Data))
    (h : ∀ id ∈ entryReads entries, r id = r' id) :
    evaluateEntries r entries = evaluateEntries r' entries := by
  match entries with
  | [] => rfl
  | (key, d) :: ds =>
    simp only [entryReads, List.forall_mem_append] at h
    simp only [evaluateEntries, evaluate_congr_of_reads d h.1, evaluateEntries_congr ds h.2]

end

theorem evaluate_congr (d : Data) (h : ∀ id ∈ d.contextIds, r id = r' id) :
    d.evaluate r = d.evaluate r' :=
  d.evaluate_congr_of_reads fun id hid => h id (mem_distinct.mpr hid)

end Data

namespace Expression

variable {α : Type} [Attribute α]

theorem evaluate_congr (x : Expression α) (h : ∀ id ∈ x.contextIds, r id = r' id) :
    x.evaluate r = x.evaluate r' := by
  cases x
  case value => rfl
  case binding t => exact congrArg (convert? α) (t.evaluate_congr h)

omit [Attribute α] in
theorem contextIds_nodup (x : Expression α) : x.contextIds.Nodup := by
  cases x
  case value => exact .nil
  case binding t => exact t.contextIds_nodup

end Expression

end BindingEngine
