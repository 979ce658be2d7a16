namespace BindingEngine.Text

open String (Slice)
open String.Slice.Pattern (SearchStep ToForwardSearcher)
open String.Slice.Pattern.Model

structure Replaces (p r : List Char) (f : List Char → List Char) : Prop where
  nil : f [] = []
  found (cs : List Char) : f (p ++ cs) = r ++ f cs
  passed {c : Char} {cs : List Char} : ¬p <+: c :: cs → f (c :: cs) = c :: f cs

section Searching

variable {p r : List Char} {f : List Char → List Char}

theorem Replaces.passed_append (h : Replaces p r f) {cs rest : List Char}
    (hn : ∀ ds, ds <:+ cs → ds ≠ [] → ¬p <+: ds ++ rest) : f (cs ++ rest) = cs ++ f rest := by
  induction cs
  case nil => rfl
  case cons c cs hi =>
    have hc : ¬p <+: c :: (cs ++ rest) := hn (c :: cs) (List.suffix_refl _) (List.cons_ne_nil _ _)
    have hs := hi fun ds hd => hn ds (hd.trans (List.suffix_cons _ _))
    rw [List.cons_append, h.passed hc, hs, List.cons_append]

end Searching

section Replacement

variable {p r : String} {f : List Char → List Char} {s : Slice}

def addStep (r : String) (text : String) : SearchStep s → String
  | .matched _ _         => text ++ r.toSlice
  | .rejected start stop => text ++ s.slice! start stop

theorem not_prefix_of_not_matchesAt {start stop : s.Pos} {before text rest : String}
    (hs : start.Splits before (text ++ rest)) (he : stop.Splits (before ++ text) rest)
    (hn : ∀ pos, start ≤ pos → pos < stop → ¬MatchesAt p pos) {ds : List Char}
    (hd : ds <:+ text.toList) (hne : ds ≠ []) : ¬p.toList <+: ds ++ rest.toList := by
  rintro ⟨after, ha⟩
  obtain ⟨us, hu⟩ := hd
  have ht : text = String.ofList us ++ String.ofList ds := by
    rw [← String.ofList_append, hu, String.ofList_toList]
  have hr : String.ofList ds ++ rest = p ++ String.ofList after := by
    rw [← String.toList_inj]
    simpa using ha.symm
  have hc : s.copy = (before ++ String.ofList us) ++ (String.ofList ds ++ rest) := by
    rw [hs.eq_append, ht]
    simp only [String.append_assoc]
  obtain ⟨pos, hp⟩ : ∃ pos : s.Pos, pos.Splits _ _ := ⟨_, Slice.Pos.splits_ofEqAppend hc⟩
  refine hn pos ?_ ?_ ?_
  case refine_1 =>
    refine (hs.le_iff_exists_eq_append hp).mpr ⟨String.ofList us, rfl, ?_⟩
    rw [ht, String.append_assoc]
  case refine_2 =>
    refine (hp.lt_iff_exists_eq_append he).mpr ⟨String.ofList ds, by simpa using hne, ?_, rfl⟩
    rw [ht, String.append_assoc]
  case refine_3 =>
    rw [hr] at hp
    exact ForwardStringSearcher.matchesAt_iff_splits.mpr ⟨_, _, hp⟩

theorem toList_foldl_addStep (h : Replaces p.toList r.toList f) {steps : List (SearchStep s)} {pos : s.Pos}
    (hv : IsValidSearchFrom p pos steps) {before rest : String} (hp : pos.Splits before rest)
    (text : String) : (steps.foldl (addStep r) text).toList = text.toList ++ f rest.toList := by
  induction hv generalizing before rest text
  case endPos =>
    obtain ⟨-, rfl⟩ := Slice.splits_endPos_iff.mp hp
    simp [h.nil]
  case matched steps start stop hm _ hi =>
    obtain ⟨_, after, hs, he⟩ := ForwardStringSearcher.isLongestMatchAt_iff_splits.mp hm
    obtain rfl := hp.eq_right hs
    rw [List.foldl_cons, hi he, addStep, String.appendSlice_eq, String.copy_toSlice, String.toList_append,
      String.toList_append, h.found, List.append_assoc]
  case mismatched steps start stop hl hn _ hi =>
    obtain ⟨_, after, hs, he⟩ := Slice.copy_slice_eq_iff_splits.mp ⟨Std.le_of_lt hl, rfl⟩
    obtain rfl := hp.eq_right hs
    rw [List.foldl_cons, hi he, addStep, ← Slice.slice_eq_slice!, String.appendSlice_eq, String.toList_append,
      String.toList_append, h.passed_append, List.append_assoc]
    exact fun ds hd hne => not_prefix_of_not_matchesAt hs he hn hd hne

theorem replace_eq_foldl (text p r : String) :
    text.replace p r = (ToForwardSearcher.toSearcher p text.toSlice).toList.foldl (addStep r) "" := by
  unfold String.replace Slice.replace
  rw [Std.Iter.foldl_toList]
  congr 1
  funext sofar step
  cases step <;> rfl

-- What the library puts in the place of every occurrence is what the recursion does.
theorem toList_replace (hp : p ≠ "") (h : Replaces p.toList r.toList f) (text : String) :
    (text.replace p r).toList = f text.toList := by
  have hs := (ForwardStringSearcher.lawfulToForwardSearcherModel hp).isValidSearchFrom_toList text.toSlice
  rw [replace_eq_foldl, toList_foldl_addStep h hs (Slice.splits_startPos _) "", String.copy_toSlice]
  rfl

end Replacement

end BindingEngine.Text
