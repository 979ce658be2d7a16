import BindingEngine.Template.Basic

namespace BindingEngine

section Distinct

theorem foldl_distinct (names seen : List String) (h : seen.Nodup) :
    (names.foldl (fun seen name => if name ∈ seen then seen else seen ++ [name]) seen).Nodup ∧
    ∀ id, id ∈ names.foldl (fun seen name => if name ∈ seen then seen else seen ++ [name]) seen ↔
      id ∈ seen ∨ id ∈ names := by
  induction names generalizing seen
  case nil => simp [h]
  case cons name names hi =>
    rw [List.foldl_cons]
    split
    case isTrue hm =>
      obtain ⟨hn, hi⟩ := hi seen h
      refine ⟨hn, fun id => ?_⟩
      by_cases hid : id = name <;> simp [hi, hid, hm]
    case isFalse hm =>
      have hd : (seen ++ [name]).Nodup :=
        List.nodup_append.mpr ⟨h, by simp, fun x hx y hy hxy => hm (by simp_all)⟩
      obtain ⟨hn, hi⟩ := hi (seen ++ [name]) hd
      exact ⟨hn, fun id => by simp [hi, or_assoc]⟩

theorem mem_distinct {names : List String} {id : String} : id ∈ distinct names ↔ id ∈ names := by
  simp [distinct, (foldl_distinct names [] .nil).2]

theorem distinct_nodup (names : List String) : (distinct names).Nodup :=
  (foldl_distinct names [] .nil).1

theorem foldl_distinct_eq (names seen : List String) :
    names.foldl (fun seen name => if name ∈ seen then seen else seen ++ [name]) seen =
      seen ++ (distinct names).filter (· ∉ seen) := by
  induction names generalizing seen
  case nil => simp [distinct]
  case cons name names hi =>
    have hd : distinct (name :: names) = [name] ++ (distinct names).filter (· ∉ [name]) := hi [name]
    rw [List.foldl_cons, hd, List.filter_append, List.filter_filter]
    split
    case isTrue hm =>
      rw [hi, List.filter_cons_of_neg (by simpa using hm), List.filter_nil, List.nil_append]
      congr 1
      refine List.filter_congr fun other _ => ?_
      by_cases ho : other ∈ seen
      case pos => simp [ho]
      case neg => simp [ho, show other ≠ name from fun he => ho (he ▸ hm)]
    case isFalse hm =>
      rw [hi, List.filter_cons_of_pos (by simpa using hm), List.filter_nil, List.append_assoc]
      congr 2
      refine List.filter_congr fun other _ => ?_
      simp [List.mem_append, not_or, Bool.decide_and]

theorem distinct_cons (name : String) (names : List String) :
    distinct (name :: names) = name :: (distinct names).filter (· ≠ name) := by
  have hd : distinct (name :: names) = [name] ++ (distinct names).filter (· ∉ [name]) :=
    foldl_distinct_eq names [name]
  simpa using hd

theorem distinct_append (names names' : List String) :
    distinct (names ++ names') = distinct names ++ (distinct names').filter (· ∉ distinct names) := by
  rw [distinct, List.foldl_append]
  exact foldl_distinct_eq names' (distinct names)

theorem distinct_filter (p : String → Bool) (names : List String) :
    distinct (names.filter p) = (distinct names).filter p := by
  induction names
  case nil => rfl
  case cons name names hi =>
    rw [List.filter_cons]
    split
    case isTrue hp =>
      rw [distinct_cons, distinct_cons, hi, List.filter_cons_of_pos hp, List.filter_filter,
        List.filter_filter]
      congr 1
      exact List.filter_congr fun other _ => Bool.and_comm _ _
    case isFalse hp =>
      rw [distinct_cons, hi, List.filter_cons_of_neg hp, List.filter_filter]
      refine List.filter_congr fun other _ => ?_
      by_cases ho : other = name <;> simp [ho, hp]

theorem distinct_eq_eraseDups (names : List String) : distinct names = names.eraseDups := by
  match names with
  | [] => rfl
  | name :: names =>
    rw [List.eraseDups_cons, ← distinct_eq_eraseDups (names.filter _), distinct_filter, distinct_cons]
    congr 1
    exact List.filter_congr fun other _ => decide_not
termination_by names.length
decreasing_by exact Nat.lt_succ_of_le (List.length_filter_le _ _)

end Distinct

namespace Expr

variable {r r' : Resolver}

mutual

theorem evaluate_congr (e : Expr) (h : ∀ id ∈ e.reads, r id = r' id) :
    e.evaluate r = e.evaluate r' := by
  match e with
  | .literal v => rfl
  | .read context steps =>
    simp only [reads, List.forall_mem_cons] at h
    simp only [evaluate, h.1]
    cases r' context
    case none => rfl
    case some v => simp only [follow?_congr steps v h.2]
  | .unary op operand =>
    simp only [reads] at h
    simp only [evaluate, evaluate_congr operand h]
  | .binary op left right =>
    simp only [reads, List.forall_mem_append] at h
    have hl := evaluate_congr left h.1
    have hr := evaluate_congr right h.2
    cases op <;> simp only [evaluate, hl, hr]
  | .conditional condition whenTrue whenFalse =>
    simp only [reads, List.forall_mem_append] at h
    obtain ⟨⟨hc, ht⟩, hf⟩ := h
    simp only [evaluate, evaluate_congr condition hc, evaluate_congr whenTrue ht,
      evaluate_congr whenFalse hf]

theorem follow?_congr (steps : List Accessor) (v : Value)
    (h : ∀ id ∈ accessorReads steps, r id = r' id) : follow? r steps v = follow? r' steps v := by
  match steps with
  | [] => rfl
  | .static s :: rest =>
    simp only [accessorReads] at h
    simp only [follow?]
    exact Option.bind_congr fun v _ => follow?_congr rest v h
  | .computed e :: rest =>
    simp only [accessorReads, List.forall_mem_append] at h
    simp only [follow?, evaluate_congr e h.1]
    split
    case h_1 => rfl
    case h_2 => exact Option.bind_congr fun v _ => follow?_congr rest v h.2

end

end Expr

namespace Template

variable {r r' : Resolver}

theorem Part.evaluate_congr (p : Part) (h : ∀ id ∈ p.reads, r id = r' id) :
    p.evaluate r = p.evaluate r' := by
  cases p
  case text => rfl
  case binding e => exact congrArg Value.text (Expr.evaluate_congr e h)

theorem mem_contextIds {t : Template} {id : String} :
    id ∈ t.contextIds ↔ ∃ p ∈ t.parts, id ∈ p.reads := by
  simp [contextIds, mem_distinct]

theorem contextIds_nodup (t : Template) : t.contextIds.Nodup :=
  distinct_nodup _

theorem evaluate_congr (t : Template) (h : ∀ id ∈ t.contextIds, r id = r' id) :
    t.evaluate r = t.evaluate r' := by
  have hp : ∀ p ∈ t.parts, ∀ id ∈ p.reads, r id = r' id := fun p hp id hid =>
    h id (mem_contextIds.mpr ⟨p, hp, hid⟩)
  unfold evaluate
  split
  case h_1 e he => exact Expr.evaluate_congr e (hp (.binding e) (by simp [he]))
  case h_2 =>
    have hm : t.parts.map (Part.evaluate r) = t.parts.map (Part.evaluate r') :=
      List.map_congr_left fun p hm => Part.evaluate_congr p (hp p hm)
    rw [hm]

end Template

end BindingEngine
