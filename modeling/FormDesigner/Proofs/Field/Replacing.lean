import FormDesigner.Proofs.Field.Tree

/-!
# Replacing fields

What a value owns depends on its type and on what it owns under the names for it. So a field that
differs from another in other attributes alone can stand in its place, and is found there.
-/

namespace FormDesigner

namespace Value

variable {v w : Value} {n : String}

theorem childValues_congr (hmap : v.isMap = w.isMap)
    (htype : v.getOrNull "type" = w.getOrNull "type")
    (hchildren : v.getOrNull "children" = w.getOrNull "children") :
    v.childValues = w.childValues := by
  rw [childValues, childValues, isSection, isSection, hasType, hasType, hmap, htype, hchildren]

theorem templateValue?_congr (hmap : v.isMap = w.isMap)
    (htype : v.getOrNull "type" = w.getOrNull "type") (hof : v.get? "of" = w.get? "of") :
    v.templateValue? = w.templateValue? := by
  rw [templateValue?, templateValue?, isArray, isArray, hasType, hasType, hmap, htype, hof]

theorem gathered_congr (hchildren : v.childValues = w.childValues)
    (htemplate : v.templateValue? = w.templateValue?) (hn : v.getOrNull n = w.getOrNull n) :
    v.gathered n = w.gathered n := by
  rw [gathered_eq, gathered_eq, fieldTemplate, fieldTemplate, hchildren, htemplate, hn]

end Value

namespace Forest

open Value (gathered nodes owned_induction)
open FormDesigner.Field (ofValue)

variable {id new w : Value} {vs : List Value} {n : String}

/-- A field with another one in the place of each field below it that has an id. -/
def replaceIn (id new v : Value) : Value :=
  mapField (fun v => if (v.getOrNull "id").equals id then new else v) (ofValue v)

theorem replace_map (id new : Value) (vs : List Value) :
    replace id new (vs.map ofValue) = vs.map (replaceIn id new) := by
  rw [replace, mapAll_map]
  rfl

theorem replaceIn_of_hasId {v : Value} (h : hasId id v = true) : replaceIn id new v = new := by
  have hid : (v.getOrNull "id").equals id = true := h
  rw [replaceIn, mapField_ofValue]
  by_cases hv : v.isSection = true
  · rw [if_pos hv, Value.getOrNull_put_of_ne (by decide), if_pos hid]
  · rw [if_neg hv, if_pos hid]

theorem replaceIn_of_isSection {v : Value} (h : hasId id v = false) (hv : v.isSection = true) :
    replaceIn id new v = v.put "children" (.list (v.childValues.map (replaceIn id new))) := by
  have hid : ¬ (v.getOrNull "id").equals id = true := Bool.eq_false_iff.1 h
  rw [replaceIn, mapField_ofValue, if_pos hv, Value.getOrNull_put_of_ne (by decide), if_neg hid]
  rfl

theorem replaceIn_of_not_isSection {v : Value} (h : hasId id v = false) (hv : ¬ v.isSection = true) :
    replaceIn id new v = v := by
  have hid : ¬ (v.getOrNull "id").equals id = true := Bool.eq_false_iff.1 h
  rw [replaceIn, mapField_ofValue, if_neg hv, if_neg hid]

private theorem gathered_replaceIn (hn : n ≠ "children") (v : Value)
    (h : ∀ w ∈ v.nodes, hasId id w = true → new.gathered n = w.gathered n) :
    (replaceIn id new v).gathered n = v.gathered n := by
  induction v using owned_induction with
  | node v ih _ =>
      rw [Value.nodes_eq, List.forall_mem_cons] at h
      obtain ⟨hself, hbelow⟩ := h
      cases hv : hasId id v with
      | true => rw [replaceIn_of_hasId hv, hself hv]
      | false =>
          by_cases hsection : v.isSection = true
          · rw [replaceIn_of_isSection hv hsection, Value.gathered_put_children hsection hn,
              Value.gathered_of_isSection hsection, List.flatMap_map]
            refine congrArg (_ :: ·) (List.flatMap_congr fun c hc => ?_)
            exact ih c hc fun w hw => hbelow w (List.mem_flatMap.2 ⟨c, hc, hw⟩)
          · rw [replaceIn_of_not_isSection hv hsection]

/-- Replacing a field by one that owns the same leaves what is gathered as it is. -/
theorem gathered_replace (hn : n ≠ "children")
    (h : ∀ w ∈ vs.flatMap nodes, hasId id w = true → new.gathered n = w.gathered n) :
    (replace id new (vs.map ofValue)).flatMap (gathered n) = vs.flatMap (gathered n) := by
  rw [replace_map, List.flatMap_map]
  refine List.flatMap_congr fun v hv => gathered_replaceIn hn v fun w hw => ?_
  exact h w (List.mem_flatMap.2 ⟨v, hv, hw⟩)

/-- A field does not stand at two places if no id does. -/
theorem hasId_eq_false {v : Value} {us : List Value} (hfits : ∀ v ∈ vs, v.Fits)
    (hids : (vs.flatMap (gathered "id")).Nodup) (hw : w ∈ v.nodes) (hwid : hasId id w = true)
    (hv : v ∈ vs) (hus : ∀ u ∈ us, u ∈ vs)
    (hdisjoint : (us.flatMap (gathered "id")).Disjoint (v.gathered "id")) :
    ∀ u ∈ us, ∀ x ∈ u.nodes, hasId id x = false := by
  intro u hu x hx
  rw [Bool.eq_false_iff]
  intro hxid
  have hmem : ∀ {u y : Value}, y ∈ u.nodes → y.getOrNull "id" ∈ u.gathered "id" := fun hy =>
    (Value.map_nodes_sublist_gathered "id" _).subset (List.mem_map_of_mem hy)
  have heq := eq_of_hasId hfits hids (List.mem_flatMap.2 ⟨u, hus u hu, hx⟩)
    (List.mem_flatMap.2 ⟨v, hv, hw⟩) hxid hwid
  exact hdisjoint (List.mem_flatMap.2 ⟨u, hu, hmem hx⟩) (heq ▸ hmem hw)

/-- What is gathered before and after another field has taken the place of one: the same, but for a
stretch that each of the two owns. -/
def SwappedIn (n : String) (w new : Value) (old swapped : List Value) : Prop :=
  ∃ before after, old = before ++ w.gathered n ++ after ∧
    swapped = before ++ new.gathered n ++ after

private theorem swapped_of_mem (hn : n ≠ "children") (hfits : ∀ v ∈ vs, v.Fits)
    (hids : (vs.flatMap (gathered "id")).Nodup) (hwid : hasId id w = true) {v : Value} (hv : v ∈ vs)
    (hw : w ∈ v.nodes)
    (h : SwappedIn n w new (v.gathered n) ((replaceIn id new v).gathered n)) :
    SwappedIn n w new (vs.flatMap (gathered n))
      ((vs.map (replaceIn id new)).flatMap (gathered n)) := by
  obtain ⟨before, after, rfl⟩ := List.append_of_mem hv
  obtain ⟨before', after', hold, hnew⟩ := h
  have hnodup := hids
  rw [List.flatMap_append, List.flatMap_cons] at hnodup
  obtain ⟨-, hrest, hbefore⟩ := List.nodup_append'.1 hnodup
  obtain ⟨-, -, hafter⟩ := List.nodup_append'.1 hrest
  have hkept : ∀ us : List Value, (∀ u ∈ us, u ∈ before ++ v :: after) →
      (us.flatMap (gathered "id")).Disjoint (v.gathered "id") →
        (us.map (replaceIn id new)).flatMap (gathered n) = us.flatMap (gathered n) := by
    intro us hus hdisjoint
    have hnone := hasId_eq_false hfits hids hw hwid hv hus hdisjoint
    rw [List.flatMap_map]
    refine List.flatMap_congr fun u hu => gathered_replaceIn hn u fun x hx hxid => ?_
    rw [hnone u hu x hx] at hxid
    cases hxid
  have hstart := hkept before (fun u hu => List.mem_append_left _ hu)
    fun x hx hxv => hbefore hx (List.mem_append_left _ hxv)
  have hend := hkept after (fun u hu => List.mem_append_right _ (.tail _ hu))
    fun x hx hxv => hafter hxv hx
  refine ⟨before.flatMap (gathered n) ++ before', after' ++ after.flatMap (gathered n), ?_, ?_⟩
  · rw [List.flatMap_append, List.flatMap_cons, hold]
    simp only [List.append_assoc]
  · rw [List.map_append, List.map_cons, List.flatMap_append, List.flatMap_cons, hstart, hend, hnew]
    simp only [List.append_assoc]

private theorem swappedIn_replaceIn (hn : n ≠ "children") {v : Value} (hv : v.Fits)
    (hids : (v.gathered "id").Nodup) (hw : w ∈ v.nodes) (hwid : hasId id w = true) :
    SwappedIn n w new (v.gathered n) ((replaceIn id new v).gathered n) := by
  induction v using owned_induction with
  | node v ih _ =>
      by_cases hself : hasId id v = true
      · have hone : v = w := by
          have hvids : ([v].flatMap (gathered "id")).Nodup := by rwa [List.flatMap_singleton]
          have hmem : ∀ {x}, x ∈ v.nodes → x ∈ [v].flatMap nodes := fun hx => by
            rwa [List.flatMap_singleton]
          exact eq_of_hasId (List.forall_mem_singleton.2 hv) hvids
            (hmem (Value.mem_nodes_self v)) (hmem hw) hself hwid
        subst hone
        refine ⟨[], [], ?_, ?_⟩
        · rw [List.nil_append, List.append_nil]
        · rw [replaceIn_of_hasId hself, List.nil_append, List.append_nil]
      · have hself := Bool.eq_false_iff.2 hself
        rw [Value.nodes_eq] at hw
        rcases List.mem_cons.1 hw with rfl | hw
        · rw [hwid] at hself
          cases hself
        · obtain ⟨c, hc, hwc⟩ := List.mem_flatMap.1 hw
          have hsection : v.isSection = true := (Value.mem_childValues hc).1
          have hbelow : (v.childValues.flatMap (gathered "id")).Nodup := by
            rw [Value.gathered_of_isSection hsection] at hids
            exact (List.nodup_cons.1 hids).2
          have hcids : (c.gathered "id").Nodup :=
            hbelow.sublist (List.sublist_flatten_of_mem (List.mem_map_of_mem hc))
          obtain ⟨before, after, hold, hnew⟩ := swapped_of_mem hn hv.children hbelow hwid hc hwc
            (ih c hc (hv.children c hc) hcids hwc)
          refine ⟨v.getOrNull n :: before, after, ?_, ?_⟩
          · rw [Value.gathered_of_isSection hsection, hold]
            rfl
          · rw [replaceIn_of_isSection hself hsection, Value.gathered_put_children hsection hn, hnew]
            rfl

/-- Where ids differ, another field takes the place of the one with an id and of nothing else. -/
theorem swappedIn_replace (hn : n ≠ "children") (hfits : ∀ v ∈ vs, v.Fits)
    (hids : (vs.flatMap (gathered "id")).Nodup) (hw : w ∈ vs.flatMap nodes)
    (hwid : hasId id w = true) :
    SwappedIn n w new (vs.flatMap (gathered n))
      ((replace id new (vs.map ofValue)).flatMap (gathered n)) := by
  obtain ⟨v, hv, hwv⟩ := List.mem_flatMap.1 hw
  have hvids : (v.gathered "id").Nodup :=
    hids.sublist (List.sublist_flatten_of_mem (List.mem_map_of_mem hv))
  rw [replace_map]
  exact swapped_of_mem hn hfits hids hwid hv hwv
    (swappedIn_replaceIn hn (hfits v hv) hvids hwv hwid)

private theorem find?_map_replaceIn {vs : List Value}
    (h : ∀ v ∈ vs, (replaceIn id new v).nodes.find? (hasId id) =
      (v.nodes.find? (hasId id)).map fun _ => new) :
    ((vs.map (replaceIn id new)).flatMap nodes).find? (hasId id) =
      ((vs.flatMap nodes).find? (hasId id)).map fun _ => new := by
  induction vs with
  | nil => rfl
  | cons v vs ih =>
      obtain ⟨hv, hvs⟩ := List.forall_mem_cons.1 h
      rw [List.map_cons, List.flatMap_cons, List.flatMap_cons, List.find?_append,
        List.find?_append, hv, ih hvs]
      cases v.nodes.find? (hasId id) <;> rfl

private theorem find?_replaceIn (hnew : hasId id new = true) (v : Value) :
    (replaceIn id new v).nodes.find? (hasId id) =
      (v.nodes.find? (hasId id)).map fun _ => new := by
  induction v using owned_induction with
  | node v ih _ =>
      cases hv : hasId id v with
      | true =>
          rw [replaceIn_of_hasId hv, Value.nodes_eq, Value.nodes_eq, List.find?_cons_of_pos hnew,
            List.find?_cons_of_pos hv]
          rfl
      | false =>
          by_cases hsection : v.isSection = true
          · have hput : hasId id (v.put "children" (.list (v.childValues.map (replaceIn id new)))) =
                false := by
              rw [hasId, Value.getOrNull_put_of_ne (by decide)]
              exact hv
            rw [replaceIn_of_isSection hv hsection, Value.nodes_eq, Value.nodes_eq,
              List.find?_cons_of_neg (Bool.eq_false_iff.1 hput),
              List.find?_cons_of_neg (Bool.eq_false_iff.1 hv),
              Value.childValues_put_children hsection, find?_map_replaceIn ih]
          · have hnone : v.childValues = [] := by rw [Value.childValues, if_neg hsection]
            rw [replaceIn_of_not_isSection hv hsection, Value.nodes_eq, hnone,
              List.find?_cons_of_neg (Bool.eq_false_iff.1 hv)]
            rfl

/-- The new field is found in the place of the one that it replaces. -/
theorem find?_replace (hnew : hasId id new = true) {f : Field}
    (h : find? id (vs.map ofValue) = some f) :
    find? id ((replace id new (vs.map ofValue)).map ofValue) = some (ofValue new) := by
  obtain ⟨w, hw, -⟩ := Option.map_eq_some_iff.1 ((find?_map id vs).symm.trans h)
  rw [replace_map, find?_map, find?_map_replaceIn fun v _ => find?_replaceIn hnew v, hw]
  rfl

end Forest

end FormDesigner
