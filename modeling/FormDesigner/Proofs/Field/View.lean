import FormDesigner.Field.Tree
import FormDesigner.Proofs.Value.Domain
import FormDesigner.Schema.Shape

/-!
# Values seen as fields

The tree that a value shows as a field has the value at its root; below stand the trees of the items
of its `children`, if it is a section, and the tree of its `of`, if it is an array. So what is true
of all fields is proved by induction on what a value owns.
-/

namespace FormDesigner

namespace Value

/-- What a section owns. -/
def childValues (v : Value) : List Value :=
  if v.isSection then (Shape.itemsOf? (v.getOrNull "children")).getD [] else []

/-- What an array owns. -/
def templateValue? (v : Value) : Option Value := if v.isArray then v.get? "of" else none

variable {v w : Value} {n : String}

theorem isSection_iff :
    v.isSection = true ↔ v.isMap = true ∧ v.getOrNull "type" = .text "section" := by
  rw [isSection, hasType, Bool.and_eq_true, equals_text_right_iff]

theorem isArray_iff : v.isArray = true ↔ v.isMap = true ∧ v.getOrNull "type" = .text "array" := by
  rw [isArray, hasType, Bool.and_eq_true, equals_text_right_iff]

theorem not_isArray_of_isSection (h : v.isSection = true) : v.isArray = false := by
  rw [Bool.eq_false_iff]
  intro harray
  have htype := (isSection_iff.1 h).2.symm.trans (isArray_iff.1 harray).2
  exact absurd (text.inj htype) (by decide)

theorem templateValue?_of_isSection (h : v.isSection = true) : v.templateValue? = none := by
  rw [templateValue?, not_isArray_of_isSection h, if_neg (by decide)]

/-! ### Attributes -/

theorem get?_map (es : Entries) (n : String) :
    (Value.map es).get? n = Entries.get? es (.text n) := rfl

theorem exists_eq_map (hv : v.isMap = true) : ∃ es, v = map es := by
  cases v with
  | map es => exact ⟨es, rfl⟩
  | _ => cases hv

theorem isMap_of_get? (h : (v.get? n).isSome = true) : v.isMap = true := by
  cases v <;> first | rfl | cases h

@[simp] theorem isMap_put : (v.put n w).isMap = v.isMap := by cases v <;> rfl

theorem get?_put_self (hv : v.isMap = true) : (v.put n w).get? n = some w := by
  cases v with
  | map es => exact Entries.get?_insert_self
  | _ => simp [isMap] at hv

theorem get?_put_of_ne {m : String} (h : m ≠ n) : (v.put n w).get? m = v.get? m := by
  cases v with
  | map es => exact Entries.get?_insert_of_ne h
  | _ => rfl

theorem isMap_drop : (v.drop n).isMap = v.isMap := by cases v <;> rfl

theorem get?_drop_self : (v.drop n).get? n = none := by
  cases v with
  | map es => exact Entries.get?_erase_self
  | _ => rfl

theorem get?_drop_of_ne {m : String} (h : m ≠ n) : (v.drop n).get? m = v.get? m := by
  cases v with
  | map es => exact Entries.get?_erase_of_ne h
  | _ => rfl

theorem getOrNull_put_of_ne {m : String} (h : m ≠ n) :
    (v.put n w).getOrNull m = v.getOrNull m := by
  rw [getOrNull, get?_put_of_ne h, getOrNull]

theorem getOrNull_put_self (hv : v.isMap = true) : (v.put n w).getOrNull n = w := by
  rw [getOrNull, get?_put_self hv, Option.getD_some]

theorem put_put {u : Value} : (v.put n w).put n u = v.put n u := by
  cases v with
  | map es => exact congrArg Value.map Entries.insert_insert_self
  | _ => rfl

/-- What is there under a name can be changed before or after something else is put under another. -/
theorem put_put_of_ne {m : String} {u : Value} (h : m ≠ n) (hv : (v.get? n).isSome = true) :
    (v.put n w).put m u = (v.put m u).put n w := by
  cases v with
  | map es =>
      exact congrArg Value.map (Entries.insert_insert_of_ne_key (fun heq => h (text.inj heq))
        (Entries.get?_isSome_iff.1 hv))
  | _ => rfl

theorem get?_of_getOrNull (h : v.getOrNull n = w) (hw : w ≠ .null) : v.get? n = some w := by
  rw [getOrNull] at h
  cases hget : v.get? n with
  | none =>
      rw [hget] at h
      exact absurd h.symm hw
  | some u =>
      rw [hget] at h
      exact congrArg some h

theorem isSection_put (h : n ≠ "type") : (v.put n w).isSection = v.isSection := by
  rw [isSection, isSection, hasType, hasType, isMap_put, getOrNull_put_of_ne h.symm]

theorem isArray_put (h : n ≠ "type") : (v.put n w).isArray = v.isArray := by
  rw [isArray, isArray, hasType, hasType, isMap_put, getOrNull_put_of_ne h.symm]

/-- The children that are put into a section are its children. -/
theorem childValues_put_children (hv : v.isSection = true) (cs : List Value) :
    (v.put "children" (.list cs)).childValues = cs := by
  rw [childValues, isSection_put (by decide), if_pos hv,
    getOrNull_put_self (isSection_iff.1 hv).1]
  rfl

theorem childValues_put_of_ne (htype : n ≠ "type") (hchildren : n ≠ "children") :
    (v.put n w).childValues = v.childValues := by
  rw [childValues, childValues, isSection_put htype, getOrNull_put_of_ne hchildren.symm]

theorem templateValue?_put_of_ne (htype : n ≠ "type") (hof : n ≠ "of") :
    (v.put n w).templateValue? = v.templateValue? := by
  rw [templateValue?, templateValue?, isArray_put htype, get?_put_of_ne hof.symm]

/-! ### Size -/

theorem sizeOf_get?_lt (h : v.get? n = some w) : sizeOf w < sizeOf v := by
  cases v with
  | map es =>
      have hmem := List.sizeOf_lt_of_mem (Entries.mem_of_get?_eq_some h)
      simp only [Prod.mk.sizeOf_spec, map.sizeOf_spec] at hmem ⊢
      omega
  | _ => simp [get?] at h

theorem itemsOf?_eq_some {xs : List Value} (h : Shape.itemsOf? v = some xs) :
    v = .list xs ∨ v = .tuple xs ∨ v = .set xs := by
  cases v <;> simp_all [Shape.itemsOf?]

theorem childValues_of_not_isSection (hv : ¬ v.isSection = true) : v.childValues = [] := by
  rw [childValues, if_neg hv]

theorem mem_childValues (h : w ∈ v.childValues) :
    v.isSection = true ∧ ∃ list xs, v.get? "children" = some list ∧
      Shape.itemsOf? list = some xs ∧ w ∈ xs := by
  unfold childValues at h
  split at h
  · refine ⟨‹_›, ?_⟩
    cases hlist : v.get? "children" with
    | none =>
        rw [getOrNull, hlist] at h
        simp [Shape.itemsOf?] at h
    | some list =>
        rw [getOrNull, hlist, Option.getD_some] at h
        cases hxs : Shape.itemsOf? list with
        | none =>
            rw [hxs] at h
            simp at h
        | some xs =>
            rw [hxs, Option.getD_some] at h
            exact ⟨list, xs, rfl, hxs, h⟩
  · simp at h

theorem sizeOf_childValue_lt (h : w ∈ v.childValues) : sizeOf w < sizeOf v := by
  obtain ⟨-, list, xs, hlist, hxs, hw⟩ := mem_childValues h
  have hsize := sizeOf_get?_lt hlist
  have hmem := List.sizeOf_lt_of_mem hw
  have hlt : sizeOf w < sizeOf list := by
    rcases itemsOf?_eq_some hxs with rfl | rfl | rfl
    · rw [list.sizeOf_spec]; omega
    · rw [tuple.sizeOf_spec]; omega
    · rw [set.sizeOf_spec]; omega
  omega

theorem sizeOf_templateValue_lt (h : v.templateValue? = some w) : sizeOf w < sizeOf v := by
  unfold templateValue? at h
  split at h
  · exact sizeOf_get?_lt h
  · cases h

/-- Induction on what a value owns. -/
theorem owned_induction {motive : Value → Prop}
    (node : ∀ v, (∀ c ∈ v.childValues, motive c) → (∀ t ∈ v.templateValue?, motive t) → motive v)
    (v : Value) : motive v :=
  node v (fun c _ => owned_induction node c) fun t _ => owned_induction node t
termination_by sizeOf v
decreasing_by
  · exact sizeOf_childValue_lt ‹_›
  · exact sizeOf_templateValue_lt ‹_›

namespace IsIn

variable {D : Domain}

theorem childValues (h : v.IsIn D) : ∀ c ∈ v.childValues, c.IsIn D := by
  intro c hc
  obtain ⟨-, list, xs, hlist, hxs, hmem⟩ := mem_childValues hc
  exact (h.get? hlist).elements (itemsOf?_eq_some hxs) c hmem

theorem templateValue? (h : v.IsIn D) : ∀ t ∈ v.templateValue?, t.IsIn D := by
  intro t ht
  unfold Value.templateValue? at ht
  split at ht
  · exact h.get? ht
  · cases ht

end IsIn

end Value

namespace Field

open Value (childValues templateValue?)

theorem ofValues_eq_map (vs : List Value) : ofValues vs = vs.map ofValue := by
  induction vs with
  | nil => rw [ofValues, List.map_nil]
  | cons v vs ih => rw [ofValues, ih, List.map_cons]

theorem itemsOf_eq_map (v : Value) : itemsOf v = ((Shape.itemsOf? v).getD []).map ofValue := by
  cases v <;> simp [itemsOf, Shape.itemsOf?, ofValues_eq_map]

private theorem childrenIn_eq (es : Entries) :
    childrenIn es = itemsOf ((Entries.get? es (.text "children")).getD .null) := by
  induction es with
  | nil => simp [childrenIn, itemsOf]
  | cons e es ih =>
      obtain ⟨k, v⟩ := e
      rw [childrenIn, isKey]
      by_cases hk : k = .text "children"
      · rw [hk, if_pos (Value.same_text_iff.2 rfl), Entries.get?_cons_self, Option.getD_some]
      · rw [if_neg (mt Value.same_text_iff.1 hk), ih, Entries.get?_cons_of_ne hk]

private theorem templateIn_eq (es : Entries) :
    templateIn es = (Entries.get? es (.text "of")).map ofValue := by
  induction es with
  | nil => simp [templateIn]
  | cons e es ih =>
      obtain ⟨k, v⟩ := e
      rw [templateIn, isKey]
      by_cases hk : k = .text "of"
      · rw [hk, if_pos (Value.same_text_iff.2 rfl), Entries.get?_cons_self, Option.map_some]
      · rw [if_neg (mt Value.same_text_iff.1 hk), ih, Entries.get?_cons_of_ne hk]

/-- The tree of a value: the trees of what it owns below the value itself. -/
theorem ofValue_eq (v : Value) :
    ofValue v = .node v (v.childValues.map ofValue) (v.templateValue?.map ofValue) := by
  cases v with
  | map es =>
      rw [ofValue, childrenIn_eq, templateIn_eq, itemsOf_eq_map, childValues, templateValue?]
      congr 1
      · split
        · rfl
        · rfl
      · split
        · rfl
        · rfl
  | _ => simp [ofValue, childValues, templateValue?, Value.isSection, Value.isArray, Value.hasType,
      Value.isMap]

@[simp] theorem value_ofValue (v : Value) : (ofValue v).value = v := by rw [ofValue_eq, value]

theorem ofValue_injective {v w : Value} (h : ofValue v = ofValue w) : v = w := by
  simpa using congrArg value h

theorem children_ofValue (v : Value) : (ofValue v).children = v.childValues.map ofValue := by
  rw [ofValue_eq, children]

theorem map_value_ofValue (vs : List Value) : (vs.map ofValue).map value = vs := by
  rw [List.map_map]
  exact (List.map_congr_left fun v _ => value_ofValue v).trans (List.map_id vs)

end Field

namespace Forest

open FormDesigner.Field (ofValue)

variable {v : Value} {vs : List Value} {id : Value}

theorem ofValues_eq_map (vs : List Value) : ofValues vs = vs.map ofValue := Field.ofValues_eq_map vs

theorem toValues_map_ofValue (vs : List Value) : toValues (vs.map ofValue) = vs :=
  Field.map_value_ofValue vs

/-! ### Changes, one field at a time -/

theorem mapAll_map (fn : Value → Value) (vs : List Value) :
    mapAll fn (vs.map ofValue) = vs.map fun v => mapField fn (ofValue v) := by
  induction vs with
  | nil => rfl
  | cons v vs ih => rw [List.map_cons, mapAll, ih, List.map_cons]

theorem append_map (id new : Value) (vs : List Value) :
    append id new (vs.map ofValue) = vs.map fun v => appendIn id new (ofValue v) := by
  induction vs with
  | nil => rfl
  | cons v vs ih => rw [List.map_cons, append, ih, List.map_cons]

theorem remove_map (id : Value) (vs : List Value) :
    remove id (vs.map ofValue) = vs.flatMap fun v => removeField id (ofValue v) := by
  induction vs with
  | nil => rfl
  | cons v vs ih => rw [List.map_cons, remove, ih, List.flatMap_cons]

theorem mapField_ofValue (fn : Value → Value) (v : Value) :
    mapField fn (ofValue v) =
      fn (if v.isSection then
        v.put "children" (.list (v.childValues.map fun c => mapField fn (ofValue c))) else v) := by
  rw [Field.ofValue_eq, mapField, mapAll_map]

theorem appendIn_ofValue (id new v : Value) :
    appendIn id new (ofValue v) =
      if v.isSection then
        v.put "children" (.list
          (if (v.getOrNull "id").equals id then v.childValues ++ [new]
          else v.childValues.map fun c => appendIn id new (ofValue c)))
      else v := by
  rw [Field.ofValue_eq, appendIn, append_map, Field.map_value_ofValue]
  split
  · split
    · rfl
    · rfl
  · rfl

theorem removeField_ofValue (id v : Value) :
    removeField id (ofValue v) =
      if (v.getOrNull "id").equals id then []
      else if v.isSection then
        [v.put "children" (.list (v.childValues.flatMap fun c => removeField id (ofValue c)))]
      else [v] := by
  rw [Field.ofValue_eq, removeField, remove_map]

end Forest

end FormDesigner
