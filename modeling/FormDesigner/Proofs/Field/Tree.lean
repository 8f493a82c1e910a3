import FormDesigner.Proofs.Field.Fits
import Mathlib.Data.List.Flatten
import Mathlib.Data.List.Perm.Basic

/-!
# Changing forests

A property is inherited if fields hand it down to their children and keep it when they get other
children that have it; changing a forest preserves such properties of its fields. The values of an
attribute, gathered over a whole tree, remain a part of those before when fields are removed, and
remain the same up to their order when the children of a section are rearranged.
-/

namespace FormDesigner

namespace Value

/-! ### Nodes -/

/-- A value and all fields below it, the templates of arrays aside. -/
def nodes (v : Value) : List Value := (Forest.preorderOf false (.ofValue v)).map Field.value

/-- A value and everything that it owns, templates included. -/
def owned (v : Value) : List Value := (Forest.preorderOf true (.ofValue v)).map Field.value

/-- The values of an attribute on a field and on everything below it. -/
def gathered (n : String) (v : Value) : List Value := v.owned.map fun w => w.getOrNull n

theorem preorder_eq_flatMap (t : Bool) (fs : Forest) :
    Forest.preorder t fs = fs.flatMap (Forest.preorderOf t) := by
  induction fs with
  | nil => rfl
  | cons f fs ih => rw [Forest.preorder, ih, List.flatMap_cons]

variable {v : Value} {vs : List Value} {n : String}

theorem nodes_eq (v : Value) : v.nodes = v :: v.childValues.flatMap nodes := by
  unfold nodes
  rw [Field.ofValue_eq, Forest.preorderOf, preorder_eq_flatMap, if_neg (by decide),
    List.append_nil, List.map_cons, List.flatMap_map, List.map_flatMap]
  rfl

theorem mem_nodes_self (v : Value) : v ∈ v.nodes := nodes_eq v ▸ .head _

/-- The template of an array, where it is a field at all. -/
def fieldTemplate (v : Value) : List Value := (v.templateValue?.filter isMap).toList

theorem owned_eq (v : Value) :
    v.owned = v :: (v.childValues.flatMap owned ++ v.fieldTemplate.flatMap owned) := by
  have htemplate : (Forest.preorderTemplate (v.templateValue?.map Field.ofValue)).map Field.value =
      v.fieldTemplate.flatMap owned := by
    unfold fieldTemplate
    cases v.templateValue? with
    | none => rfl
    | some t =>
        rw [Option.map_some, Field.ofValue_eq, Forest.preorderTemplate, ← Field.ofValue_eq]
        by_cases ht : t.isMap = true
        · rw [if_pos ht, Option.filter_some_pos ht]
          exact (List.flatMap_singleton owned t).symm
        · rw [if_neg ht, Option.filter_some_neg (Bool.eq_false_iff.2 ht)]
          rfl
  unfold owned at htemplate ⊢
  rw [Field.ofValue_eq, Forest.preorderOf, preorder_eq_flatMap, if_pos rfl, List.map_append,
    htemplate, List.map_cons, List.flatMap_map, List.map_flatMap]
  rfl

theorem gathered_eq (n : String) (v : Value) :
    v.gathered n = v.getOrNull n ::
      (v.childValues.flatMap (gathered n) ++ v.fieldTemplate.flatMap (gathered n)) := by
  rw [gathered, owned_eq, List.map_cons, List.map_append, List.map_flatMap, List.map_flatMap]
  rfl

theorem fieldTemplate_of_isSection (hv : v.isSection = true) : v.fieldTemplate = [] := by
  rw [fieldTemplate, templateValue?_of_isSection hv]
  rfl

theorem gathered_of_isSection (hv : v.isSection = true) :
    v.gathered n = v.getOrNull n :: v.childValues.flatMap (gathered n) := by
  rw [gathered_eq, fieldTemplate_of_isSection hv, List.flatMap_nil, List.append_nil]

theorem gathered_put_children (hv : v.isSection = true) (hn : n ≠ "children") (cs : List Value) :
    (v.put "children" (.list cs)).gathered n = v.getOrNull n :: cs.flatMap (gathered n) := by
  have hsection : (v.put "children" (.list cs)).isSection = true := by
    rwa [isSection_put (by decide)]
  rw [gathered_of_isSection hsection, childValues_put_children hv, getOrNull_put_of_ne hn]

/-- Whatever can be found is owned. -/
theorem nodes_sublist_owned (v : Value) : v.nodes.Sublist v.owned := by
  induction v using owned_induction with
  | node v ih _ =>
      rw [nodes_eq, owned_eq]
      refine .cons_cons _ (List.Sublist.trans ?_ (List.sublist_append_left _ _))
      exact List.Sublist.flatMap_right _ ih

theorem map_nodes_sublist_gathered (n : String) (v : Value) :
    (v.nodes.map fun w => w.getOrNull n).Sublist (v.gathered n) := (nodes_sublist_owned v).map _

/-! ### Inherited properties -/

/-- A property that fields hand down to their children, and keep with other children that have it.
-/
structure IsInherited (P : Value → Prop) : Prop where
  children : ∀ {v}, P v → ∀ c ∈ v.childValues, P c
  put_children : ∀ {v cs}, P v → v.isSection = true → (∀ c ∈ cs, P c) →
    P (v.put "children" (.list cs))

theorem isInherited_fits : IsInherited Fits :=
  ⟨Fits.children, fun h hv hcs => h.put_children hv hcs⟩

theorem isInherited_isIn (D : Domain) : IsInherited (IsIn D) :=
  ⟨IsIn.childValues, fun h _ hcs => h.put (.list hcs)⟩

theorem IsInherited.and {P Q : Value → Prop} (hP : IsInherited P) (hQ : IsInherited Q) :
    IsInherited fun v => P v ∧ Q v :=
  ⟨fun h c hc => ⟨hP.children h.1 c hc, hQ.children h.2 c hc⟩, fun h hv hcs =>
    ⟨hP.put_children h.1 hv fun c hc => (hcs c hc).1,
      hQ.put_children h.2 hv fun c hc => (hcs c hc).2⟩⟩

theorem IsInherited.nodes {P : Value → Prop} (hP : IsInherited P) (hv : P v) :
    ∀ w ∈ v.nodes, P w := by
  induction v using owned_induction with
  | node v ih _ =>
      rw [nodes_eq]
      refine List.forall_mem_cons.2 ⟨hv, fun w hw => ?_⟩
      obtain ⟨c, hc, hw⟩ := List.mem_flatMap.1 hw
      exact ih c hc (hP.children hv c hc) w hw

end Value

namespace Forest

open Value (gathered nodes IsInherited owned_induction)
open FormDesigner.Field (ofValue)

variable {P : Value → Prop} {v new id : Value} {vs : List Value} {n : String}

/-- All fields of a forest are views of the values that its roots own. -/
theorem preorder_map (vs : List Value) :
    (preorder true (vs.map ofValue)).map Field.value = vs.flatMap Value.owned := by
  rw [Value.preorder_eq_flatMap, List.flatMap_map, List.map_flatMap]
  rfl

private theorem map_get_preorder (n : String) (vs : List Value) :
    (preorder true (vs.map ofValue)).map (fun f => f.get n) = vs.flatMap (gathered n) := by
  have h := congrArg (List.map fun w => w.getOrNull n) (preorder_map vs)
  rw [List.map_map, List.map_flatMap] at h
  exact h

theorem ids_map (vs : List Value) : ids (vs.map ofValue) = vs.flatMap (gathered "id") :=
  map_get_preorder "id" vs

theorem keys_map (vs : List Value) : keys (vs.map ofValue) = vs.flatMap (gathered "key") :=
  map_get_preorder "key" vs

/-! ### What changes preserve -/

theorem mapField_inherited (hP : IsInherited P) {fn : Value → Value} (hfn : ∀ v, P v → P (fn v))
    (hv : P v) : P (mapField fn (ofValue v)) := by
  induction v using owned_induction with
  | node v ih _ =>
      rw [mapField_ofValue]
      refine hfn _ ?_
      split
      · refine hP.put_children hv ‹_› ?_
        exact List.forall_mem_map.2 fun c hc => ih c hc (hP.children hv c hc)
      · exact hv

theorem appendIn_inherited (hP : IsInherited P) (hnew : P new) (hv : P v) :
    P (appendIn id new (ofValue v)) := by
  induction v using owned_induction with
  | node v ih _ =>
      rw [appendIn_ofValue]
      split
      · refine hP.put_children hv ‹_› ?_
        split
        · exact List.forall_mem_append.2 ⟨hP.children hv, List.forall_mem_singleton.2 hnew⟩
        · exact List.forall_mem_map.2 fun c hc => ih c hc (hP.children hv c hc)
      · exact hv

theorem removeField_inherited (hP : IsInherited P) (hv : P v) :
    ∀ w ∈ removeField id (ofValue v), P w := by
  induction v using owned_induction with
  | node v ih _ =>
      rw [removeField_ofValue]
      split
      · simp
      split
      · refine List.forall_mem_singleton.2 (hP.put_children hv ‹_› fun w hw => ?_)
        obtain ⟨c, hc, hw⟩ := List.mem_flatMap.1 hw
        exact ih c hc (hP.children hv c hc) w hw
      · exact List.forall_mem_singleton.2 hv

theorem remove_inherited (hP : IsInherited P) (hvs : ∀ v ∈ vs, P v) :
    ∀ w ∈ remove id (vs.map ofValue), P w := by
  rw [remove_map]
  intro w hw
  obtain ⟨v, hv, hw⟩ := List.mem_flatMap.1 hw
  exact removeField_inherited hP (hvs v hv) w hw

theorem mapAll_inherited (hP : IsInherited P) {fn : Value → Value} (hfn : ∀ v, P v → P (fn v))
    (hvs : ∀ v ∈ vs, P v) : ∀ w ∈ mapAll fn (vs.map ofValue), P w := by
  rw [mapAll_map]
  exact List.forall_mem_map.2 fun v hv => mapField_inherited hP hfn (hvs v hv)

theorem replace_inherited (hP : IsInherited P) (hnew : P new) (hvs : ∀ v ∈ vs, P v) :
    ∀ w ∈ replace id new (vs.map ofValue), P w := by
  refine mapAll_inherited hP (fun v hv => ?_) hvs
  split
  · exact hnew
  · exact hv

theorem replaceChildren_inherited (hP : IsInherited P) {children : List Value}
    (hchildren : ∀ c ∈ children, P c) (hvs : ∀ v ∈ vs, P v) :
    ∀ w ∈ replaceChildren id children (vs.map ofValue), P w := by
  refine mapAll_inherited hP (fun v hv => ?_) hvs
  split
  · rename_i h
    exact hP.put_children hv (Bool.and_eq_true_iff.1 h).2 hchildren
  · exact hv

theorem insertChild_inherited (hP : IsInherited P) (hnew : P new) (hvs : ∀ v ∈ vs, P v) :
    ∀ w ∈ insertChild id new (vs.map ofValue), P w := by
  unfold insertChild
  split
  · split
    · rw [append_map]
      exact List.forall_mem_map.2 fun v hv => appendIn_inherited hP hnew (hvs v hv)
    · rwa [toValues_map_ofValue]
  · rwa [toValues_map_ofValue]

/-! ### What is left after removing -/

private theorem gathered_removeField (hn : n ≠ "children") (id v : Value) :
    ((removeField id (ofValue v)).flatMap (gathered n)).Sublist (v.gathered n) := by
  induction v using owned_induction with
  | node v ih _ =>
      rw [removeField_ofValue]
      split
      · exact List.nil_sublist _
      split
      · rename_i hsection
        rw [List.flatMap_singleton, Value.gathered_put_children hsection hn,
          Value.gathered_of_isSection hsection, List.flatMap_assoc]
        exact .cons_cons _ (List.Sublist.flatMap_right _ ih)
      · rw [List.flatMap_singleton]

theorem gathered_remove (hn : n ≠ "children") (id : Value) (vs : List Value) :
    ((remove id (vs.map ofValue)).flatMap (gathered n)).Sublist (vs.flatMap (gathered n)) := by
  rw [remove_map, List.flatMap_assoc]
  exact List.Sublist.flatMap_right _ fun v _ => gathered_removeField hn id v

/-! ### What is rearranged -/

private theorem gathered_rearranged (hn : n ≠ "children") (id : Value) (children : List Value)
    (v : Value) (h : ∀ w ∈ v.nodes, (w.getOrNull "id").equals id = true → w.isSection = true →
      children.Perm w.childValues) :
    ((mapField (fun v => if (v.getOrNull "id").equals id && v.isSection then
        v.put "children" (.list children) else v) (ofValue v)).gathered n).Perm (v.gathered n) := by
  induction v using owned_induction with
  | node v ih _ =>
      rw [Value.nodes_eq, List.forall_mem_cons] at h
      obtain ⟨hself, hbelow⟩ := h
      rw [mapField_ofValue]
      by_cases hsection : v.isSection = true
      · rw [if_pos hsection]
        have hinner : ∀ cs, (v.put "children" (.list cs)).isSection = true := fun cs => by
          rwa [Value.isSection_put (by decide)]
        simp only [hinner, Value.getOrNull_put_of_ne (show "id" ≠ "children" by decide),
          Bool.and_true]
        split
        · rename_i hid
          rw [Value.gathered_put_children (hinner _) hn, Value.getOrNull_put_of_ne hn,
            Value.gathered_of_isSection hsection]
          exact .cons _ ((hself hid hsection).flatMap_right _)
        · rw [Value.gathered_put_children hsection hn, Value.gathered_of_isSection hsection,
            List.flatMap_map]
          refine .cons _ (List.Perm.flatMap_left _ fun c hc => ih c hc fun w hw => ?_)
          exact hbelow w (List.mem_flatMap.2 ⟨c, hc, hw⟩)
      · rw [if_neg hsection]
        simp [hsection]

/-- Giving sections the children that they have, in another order, only reorders what is gathered.
-/
theorem gathered_replaceChildren (hn : n ≠ "children") (id : Value) (children : List Value)
    (vs : List Value) (h : ∀ w ∈ vs.flatMap nodes, (w.getOrNull "id").equals id = true →
      w.isSection = true → children.Perm w.childValues) :
    ((replaceChildren id children (vs.map ofValue)).flatMap (gathered n)).Perm
      (vs.flatMap (gathered n)) := by
  rw [replaceChildren, mapAll_map, List.flatMap_map]
  refine List.Perm.flatMap_left _ fun v hv => gathered_rearranged hn id children v fun w hw => ?_
  exact h w (List.mem_flatMap.2 ⟨v, hv, hw⟩)

theorem moved_perm {α : Type} (xs : List α) {i j : Nat} (hi : i < xs.length) (hj : j < xs.length) :
    (moved xs i j).Perm xs := by
  rw [moved, List.getElem?_eq_getElem hi]
  refine (List.perm_insertIdx _ _ ?_).trans (List.getElem_cons_eraseIdx_perm hi)
  rw [List.length_eraseIdx_of_lt hi]
  omega

/-! ### Searches -/

/-- Whether a value has an id. -/
def hasId (id v : Value) : Bool := (v.getOrNull "id").equals id

private theorem find?_of_findField? {vs : List Value}
    (h : ∀ v ∈ vs, findField? id (ofValue v) = (v.nodes.find? (hasId id)).map ofValue) :
    find? id (vs.map ofValue) = ((vs.flatMap nodes).find? (hasId id)).map ofValue := by
  induction vs with
  | nil => rfl
  | cons v vs ih =>
      obtain ⟨hv, hvs⟩ := List.forall_mem_cons.1 h
      rw [List.map_cons, find?, hv, ih hvs, List.flatMap_cons, List.find?_append]
      cases v.nodes.find? (hasId id) <;> rfl

theorem findField?_ofValue (id v : Value) :
    findField? id (ofValue v) = (v.nodes.find? (hasId id)).map ofValue := by
  induction v using owned_induction with
  | node v ih _ =>
      have hbelow := find?_of_findField? ih
      rw [Field.ofValue_eq, findField?, hbelow, ← Field.ofValue_eq, Value.nodes_eq,
        List.find?_cons]
      change (if hasId id v = true then _ else _) = _
      by_cases hv : hasId id v = true
      · rw [if_pos hv, hv]
        rfl
      · rw [if_neg hv, Bool.eq_false_iff.2 hv]

/-- A search finds the first of all nodes that has the id. -/
theorem find?_map (id : Value) (vs : List Value) :
    find? id (vs.map ofValue) = ((vs.flatMap nodes).find? (hasId id)).map ofValue :=
  find?_of_findField? fun v _ => findField?_ofValue id v

theorem find?_eq_some {f : Field} (h : find? id (vs.map ofValue) = some f) :
    ∃ w ∈ vs.flatMap nodes, (w.getOrNull "id").equals id = true ∧ f = ofValue w := by
  rw [find?_map] at h
  obtain ⟨w, hw, rfl⟩ := Option.map_eq_some_iff.1 h
  have hid : hasId id w = true := List.find?_some hw
  exact ⟨w, List.mem_of_find?_eq_some hw, hid, rfl⟩

/-- Among fields with ids of their own, a search finds the only node with the id. -/
theorem eq_of_hasId (hfits : ∀ v ∈ vs, v.Fits) (hids : (vs.flatMap (gathered "id")).Nodup)
    {w u : Value} (hw : w ∈ vs.flatMap nodes) (hu : u ∈ vs.flatMap nodes)
    (hwid : (w.getOrNull "id").equals id = true) (huid : (u.getOrNull "id").equals id = true) :
    w = u := by
  have hfit : ∀ w ∈ vs.flatMap nodes, w.Fits := by
    intro w hw
    obtain ⟨v, hv, hw⟩ := List.mem_flatMap.1 hw
    exact Value.isInherited_fits.nodes (hfits v hv) w hw
  have hid :
      ∀ w ∈ vs.flatMap nodes, (w.getOrNull "id").equals id = true → w.getOrNull "id" = id := by
    intro w hw hwid
    obtain ⟨s, -, hs⟩ := (hfit w hw).id
    rw [hs] at hwid ⊢
    exact (Value.equals_text_iff.1 hwid).symm
  have hnodup : ((vs.flatMap nodes).map fun w => w.getOrNull "id").Nodup := by
    rw [List.map_flatMap]
    exact hids.sublist
      (List.Sublist.flatMap_right _ fun v _ => Value.map_nodes_sublist_gathered "id" v)
  exact List.inj_on_of_nodup_map hnodup hw hu ((hid w hw hwid).trans (hid u hu huid).symm)

/-- So every node is found by its id. -/
theorem find?_of_hasId (hfits : ∀ v ∈ vs, v.Fits) (hids : (vs.flatMap (gathered "id")).Nodup)
    {w : Value} (hw : w ∈ vs.flatMap nodes) (hwid : hasId id w = true) :
    find? id (vs.map ofValue) = some (ofValue w) := by
  rw [find?_map]
  cases hfound : (vs.flatMap nodes).find? (hasId id) with
  | none => exact absurd hwid (List.find?_eq_none.1 hfound w hw)
  | some u =>
      have hmem := List.mem_of_find?_eq_some hfound
      have huid : hasId id u = true := List.find?_some hfound
      rw [Option.map_some, eq_of_hasId hfits hids hmem hw huid hwid]

end Forest

/-! ### Ids and keys -/

namespace Value

variable {v : Value} {n : String}

theorem Fits.name (h : v.Fits) (hn : n = "id" ∨ n = "key") : ∃ s, v.getOrNull n = .text s := by
  rcases hn with rfl | rfl
  · obtain ⟨s, -, hs⟩ := h.id
    exact ⟨s, hs⟩
  · obtain ⟨s, -, hs⟩ := h.key
    exact ⟨s, hs⟩

/-- The ids and keys in a fitting field are texts. -/
theorem Fits.gathered_text (h : v.Fits) (hn : n = "id" ∨ n = "key") :
    ∀ w ∈ v.gathered n, ∃ s, w = .text s := by
  induction v using owned_induction with
  | node v ihChildren ihTemplate =>
      rw [gathered_eq]
      refine List.forall_mem_cons.2 ⟨h.name hn,
        List.forall_mem_append.2 ⟨fun w hw => ?_, fun w hw => ?_⟩⟩
      · obtain ⟨c, hc, hw⟩ := List.mem_flatMap.1 hw
        exact ihChildren c hc (h.children c hc) w hw
      · obtain ⟨t, ht, hw⟩ := List.mem_flatMap.1 hw
        have hmem := (Option.filter_eq_some_iff.1 (Option.mem_toList.1 ht)).1
        exact ihTemplate t hmem (h.template t hmem) w hw

theorem fieldTemplate_image {D : Domain} (hv : v.IsIn D) (sorted : Bool) :
    (Json.image sorted v).fieldTemplate = v.fieldTemplate.map (Json.image sorted) := by
  rw [fieldTemplate, templateValue?_image hv, fieldTemplate]
  cases v.templateValue? with
  | none => rfl
  | some t =>
      rw [Option.map_some]
      by_cases ht : t.isMap = true
      · rw [Option.filter_some_pos ht, Option.filter_some_pos (by rwa [isMap_image])]
        rfl
      · rw [Option.filter_some_neg (Bool.eq_false_iff.2 ht),
          Option.filter_some_neg (by rw [isMap_image]; exact Bool.eq_false_iff.2 ht)]
        rfl

/-- JSON keeps everything that a field owns. -/
theorem owned_image {D : Domain} (hv : v.IsIn D) (sorted : Bool) :
    (Json.image sorted v).owned = v.owned.map (Json.image sorted) := by
  induction v using owned_induction with
  | node v ihChildren ihTemplate =>
      rw [owned_eq, owned_eq, childValues_image hv, fieldTemplate_image hv, List.flatMap_map,
        List.flatMap_map, List.map_cons, List.map_append, List.map_flatMap, List.map_flatMap]
      congr 2
      · exact List.flatMap_congr fun c hc => ihChildren c hc (hv.childValues c hc)
      · refine List.flatMap_congr fun t ht => ?_
        have hmem := (Option.filter_eq_some_iff.1 (Option.mem_toList.1 ht)).1
        exact ihTemplate t hmem (hv.templateValue? t hmem)

theorem IsIn.owned {D : Domain} (hv : v.IsIn D) : ∀ w ∈ v.owned, w.IsIn D := by
  induction v using owned_induction with
  | node v ihChildren ihTemplate =>
      rw [owned_eq]
      refine List.forall_mem_cons.2 ⟨hv, List.forall_mem_append.2 ⟨fun w hw => ?_, fun w hw => ?_⟩⟩
      · obtain ⟨c, hc, hw⟩ := List.mem_flatMap.1 hw
        exact ihChildren c hc (hv.childValues c hc) w hw
      · obtain ⟨t, ht, hw⟩ := List.mem_flatMap.1 hw
        have hmem := (Option.filter_eq_some_iff.1 (Option.mem_toList.1 ht)).1
        exact ihTemplate t hmem (hv.templateValue? t hmem) w hw

/-- JSON keeps the ids and keys in a fitting field. -/
theorem Fits.gathered_image (h : v.Fits) (hv : v.IsProper) (hn : n = "id" ∨ n = "key")
    (sorted : Bool) : (Json.image sorted v).gathered n = v.gathered n := by
  rw [gathered, owned_image hv, List.map_map, gathered]
  refine List.map_congr_left fun w hw => ?_
  obtain ⟨s, hs⟩ := h.gathered_text hn _ (List.mem_map_of_mem hw)
  rw [Function.comp_apply, getOrNull_image (hv.owned w hw), hs, Json.image_text]

end Value

private theorem duplicatesFrom_ne_nil {seen found vs : List Value} (h : found ≠ []) :
    duplicatesFrom seen found vs ≠ [] := by
  induction vs generalizing seen found with
  | nil => exact h
  | cons v vs ih =>
      rw [duplicatesFrom]
      refine ih ?_
      split
      · exact List.append_ne_nil_of_left_ne_nil h _
      · exact h

private theorem duplicatesFrom_eq_nil_iff {seen vs : List Value}
    (hvs : ∀ v ∈ vs, ∃ s, v = .text s) :
    duplicatesFrom seen [] vs = [] ↔ (∀ v ∈ vs, v ∉ seen) ∧ vs.Nodup := by
  induction vs generalizing seen with
  | nil => simp [duplicatesFrom]
  | cons v vs ih =>
      obtain ⟨⟨s, rfl⟩, htexts⟩ := List.forall_mem_cons.1 hvs
      have hempty : (Value.text s).among [] = false := rfl
      rw [duplicatesFrom, List.forall_mem_cons, List.nodup_cons]
      by_cases hseen : Value.text s ∈ seen
      · have hfound : (Value.text s).among seen = true := Value.among_text_iff.2 hseen
        simp only [hfound, hempty, Bool.not_false, Bool.and_self, if_true]
        exact ⟨fun h => absurd h (duplicatesFrom_ne_nil (List.cons_ne_nil _ _)),
          fun h => absurd hseen h.1.1⟩
      · have hfound : (Value.text s).among seen = false :=
          Bool.eq_false_iff.2 (mt Value.among_text_iff.1 hseen)
        simp only [hfound, Bool.false_and, Bool.false_eq_true, if_false]
        rw [ih htexts]
        constructor
        · rintro ⟨hnot, hnodup⟩
          refine ⟨⟨hseen, fun v hv h => hnot v hv (List.mem_cons_of_mem _ h)⟩, fun h => ?_, hnodup⟩
          exact hnot _ h List.mem_cons_self
        · rintro ⟨⟨-, hnot⟩, hs, hnodup⟩
          refine ⟨fun v hv h => ?_, hnodup⟩
          rcases List.mem_cons.1 h with rfl | h
          · exact hs hv
          · exact hnot v hv h

/-- Nothing occurs twice among texts exactly if they are all different. -/
theorem duplicates_eq_nil_iff {vs : List Value} (hvs : ∀ v ∈ vs, ∃ s, v = .text s) :
    duplicates vs = [] ↔ vs.Nodup := by
  rw [duplicates, duplicatesFrom_eq_nil_iff hvs]
  exact and_iff_right fun _ _ => List.not_mem_nil

private theorem mem_of_mem_duplicatesFrom {seen found vs : List Value} {v : Value}
    (h : v ∈ duplicatesFrom seen found vs) : v ∈ found ∨ v ∈ vs := by
  induction vs generalizing seen found with
  | nil => exact .inl h
  | cons w vs ih =>
      rw [duplicatesFrom] at h
      rcases ih h with h | h
      · split at h
        · rcases List.mem_append.1 h with h | h
          · exact .inl h
          · exact .inr (List.mem_singleton.1 h ▸ .head _)
        · exact .inl h
      · exact .inr (.tail _ h)

theorem mem_of_mem_duplicates {vs : List Value} {v : Value} (h : v ∈ duplicates vs) : v ∈ vs :=
  (mem_of_mem_duplicatesFrom h).resolve_left List.not_mem_nil

end FormDesigner
