import FormDesigner.Proofs.Store.Patching

/-!
# A field and a patch, name by name

What a patch makes of a field can be said name by name, in whichever order the patch has its entries.
Under each name stands what the patch says, nothing if it says null, and what stood there before if it
is silent. The validation rules are merged rule by rule in the same way, and the id stays.
-/

namespace FormDesigner

namespace Patch

variable {es rules patch : Entries} {v w : Value} {n : String}

/-- What stands under a name after something was said about it: nothing if that is null. -/
def revised (old said : Option Value) : Option Value :=
  match said with
  | none => old
  | some .null => none
  | some w => some w

theorem revised_some (old : Option Value) (hw : w ≠ .null) : revised old (some w) = some w := by
  cases w <;> first | rfl | exact absurd rfl hw

/-- One mapping is another after a patch of rules. -/
def RulesMerged (es rules merged : Entries) : Prop :=
  ∀ n, Entries.get? merged (.text n) =
    revised (Entries.get? es (.text n)) (Entries.get? rules (.text n))

/-- A field with a patch merged into it. -/
structure Merged (v : Value) (patch : Entries) (merged : Value) : Prop where
  id : merged.get? "id" = v.get? "id"
  other : ∀ n, n ≠ "id" →
    (n = "validation" → ∀ rules, Entries.get? patch (.text n) ≠ some (.map rules)) →
      merged.get? n = revised (v.get? n) (Entries.get? patch (.text n))
  /-- An empty mapping of rules is not stored where there was none. -/
  rules : ∀ rules, Entries.get? patch (.text "validation") = some (.map rules) →
    ∃ rs, RulesMerged (rulesOf v) rules rs ∧ merged.get? "validation" =
      if rs.isEmpty && !v.has "validation" then none else some (.map rs)

/-! ### Rules -/

theorem get?_mergeRule_text :
    Entries.get? (mergeRule es (.text n) w) (.text n) =
      revised (Entries.get? es (.text n)) (some w) := by
  unfold mergeRule
  split
  · next hnull =>
      obtain rfl : w = .null := by cases w <;> first | rfl | cases hnull
      exact Entries.get?_erase_self
  · next hvalue =>
      rw [Entries.get?_insert_self, revised_some]
      rintro rfl
      exact hvalue rfl

/-- Rules that are merged one by one are merged as a whole. -/
theorem rulesMerged_foldl (hrules : (Entries.names rules).Nodup) (es : Entries) :
    RulesMerged es rules (rules.foldl (fun rs e => mergeRule rs e.1 e.2) es) := by
  intro n
  induction rules generalizing es with
  | nil => rfl
  | cons e rules ih =>
      obtain ⟨k, w⟩ := e
      have hrest := hrules.sublist (Entries.names_sublist (List.sublist_cons_self _ _))
      rw [List.foldl_cons, ih hrest]
      by_cases hk : k = .text n
      · subst hk
        rw [Entries.names_cons_text, List.nodup_cons, ← Entries.get?_eq_none_iff] at hrules
        rw [hrules.1, Entries.get?_cons_self, ← get?_mergeRule_text]
        rfl
      · rw [Entries.get?_cons_of_ne hk, get?_mergeRule_of_ne hk]

/-! ### Attributes -/

theorem get?_mergeAttribute_id : (mergeAttribute v (.text "id") w).get? "id" = v.get? "id" := by
  unfold mergeAttribute
  rw [if_pos (Value.same_text_iff.2 rfl)]

/-- Nothing in a patch changes the id. -/
theorem get?_merge_id : (merge v patch).get? "id" = v.get? "id" := by
  induction patch generalizing v with
  | nil => rfl
  | cons e patch ih =>
      obtain ⟨k, w⟩ := e
      rw [merge, List.foldl_cons]
      refine ih.trans ?_
      by_cases hk : k = .text "id"
      · rw [hk, get?_mergeAttribute_id]
      · exact get?_mergeAttribute_of_ne hk

theorem get?_mergeAttribute_text (hv : v.isMap = true) (hid : n ≠ "id")
    (h : n = "validation" → w.isMap = false) :
    (mergeAttribute v (.text n) w).get? n = revised (v.get? n) (some w) := by
  cases v with
  | map es =>
      rw [mergeAttribute_of_ne hid h]
      exact get?_mergeRule_text
  | _ => cases hv

theorem get?_mergeAttribute_rules (hv : v.isMap = true) :
    (mergeAttribute v (.text "validation") (.map rules)).get? "validation" =
      let rs := rules.foldl (fun rs e => mergeRule rs e.1 e.2) (rulesOf v)
      if rs.isEmpty && !v.has "validation" then none else some (.map rs) := by
  rw [mergeAttribute_validation]
  unfold mergeRules
  dsimp only
  generalize rules.foldl _ _ = rs
  cases hrs : rs.isEmpty <;> cases hhas : v.has "validation"
  · exact Value.get?_put_self hv
  · exact Value.get?_put_self hv
  · exact Option.not_isSome_iff_eq_none.1 (Bool.eq_false_iff.1 hhas)
  · exact Value.get?_put_self hv

/-- The rules of a patch are merged into those of the field, one by one. -/
theorem get?_merge_rules (hv : v.isMap = true) (hpatch : (Entries.names patch).Nodup)
    (hrules : Entries.get? patch (.text "validation") = some (.map rules)) :
    (merge v patch).get? "validation" =
      let rs := rules.foldl (fun rs e => mergeRule rs e.1 e.2) (rulesOf v)
      if rs.isEmpty && !v.has "validation" then none else some (.map rs) := by
  obtain ⟨u, humap, hu, hget⟩ := exists_mergeAttribute hpatch hrules v
  have hsame : rulesOf u = rulesOf v ∧ u.has "validation" = v.has "validation" := by
    rw [rulesOf, Value.getOrNull, hu, Value.has, hu]
    exact ⟨rfl, rfl⟩
  rw [hget, get?_mergeAttribute_rules (humap.trans hv), hsame.1, hsame.2]

/-- What a patch makes of a field is the field with the patch merged into it. -/
theorem merge_merged (hv : v.isMap = true) (hpatch : (Value.map patch).IsProper) :
    Merged v patch (merge v patch) := by
  have hone := fun n w (h : Entries.get? patch (.text n) = some w) =>
    exists_mergeAttribute hpatch.names_nodup h v
  have hkept := fun n (h : Entries.get? patch (.text n) = none) =>
    get?_merge_of_notMem (v := v) (Entries.get?_eq_none_iff.1 h)
  refine ⟨get?_merge_id, fun n hid hrules => ?_, fun rules hrules => ?_⟩
  · cases h : Entries.get? patch (.text n) with
    | none => exact hkept _ h
    | some w =>
        obtain ⟨u, humap, hu, hget⟩ := hone _ _ h
        rw [hget, get?_mergeAttribute_text (humap.trans hv) hid fun hn => ?_, hu]
        cases w with
        | map rules => exact absurd h (hrules hn rules)
        | _ => rfl
  · have hproper : (Value.map rules).IsProper := hpatch.of_mem (Entries.mem_of_get?_eq_some hrules)
    exact ⟨_, rulesMerged_foldl hproper.names_nodup (rulesOf v),
      get?_merge_rules hv hpatch.names_nodup hrules⟩

end Patch

end FormDesigner
