import FormDesigner.Proofs.Field.Replacing

/-!
# Changing fields where they stand

A change of single fields is local if it keeps their ids and neither looks at the children of a section
nor touches them. It can then be made all over a forest: the nodes are those before, each one changed,
and making two changes one after the other is making both at each node. To replace the field with an id
by what a local change makes of it is to make that change at the id, so edits of two fields commute even
if one of the fields owns the other.
-/

namespace FormDesigner

namespace Value

variable {v w : Value}

/-- If this is a section, its children stand in a list. -/
def ListsChildren (v : Value) : Prop :=
  v.isSection = true → v.put "children" (.list v.childValues) = v

theorem ListsChildren.isSome_get? (h : v.ListsChildren) (hsection : v.isSection = true) :
    (v.get? "children").isSome = true := by
  rw [← h hsection, get?_put_self (isSection_iff.1 hsection).1]
  rfl

theorem sizeOf_le_of_mem_nodes (h : w ∈ v.nodes) : sizeOf w ≤ sizeOf v := by
  induction v using owned_induction with
  | node v ih _ =>
      rw [nodes_eq] at h
      rcases List.mem_cons.1 h with rfl | h
      · exact Nat.le_refl _
      · obtain ⟨c, hc, hw⟩ := List.mem_flatMap.1 h
        exact Nat.le_trans (ih c hc hw) (Nat.le_of_lt (sizeOf_childValue_lt hc))

/-- Nothing stands below itself. -/
theorem notMem_nodes_of_mem_childValues (h : w ∈ v.childValues) : v ∉ w.nodes := fun hv =>
  Nat.not_le_of_lt (sizeOf_childValue_lt h) (sizeOf_le_of_mem_nodes hv)

end Value

namespace Forest

open Value (ListsChildren nodes owned_induction)
open FormDesigner.Field (ofValue)

/-- A change of single fields that keeps their ids, tells sections from other fields as before, and
leaves the children of sections to whoever puts them there. -/
structure IsLocal (change : Value → Value) : Prop where
  id : ∀ v, (change v).getOrNull "id" = v.getOrNull "id"
  isSection : ∀ v, (change v).isSection = v.isSection
  put_children : ∀ {v} cs, v.isSection = true → (v.get? "children").isSome = true →
    change (v.put "children" (.list cs)) = (change v).put "children" (.list cs)

/-- A change at the fields with an id. -/
def changeAt (id : Value) (change : Value → Value) (v : Value) : Value :=
  if hasId id v then change v else v

/-- A field with a change made at it and at every field below it. -/
def rebuilt (change : Value → Value) (v : Value) : Value := mapField change (ofValue v)

variable {id a b v w : Value} {vs cs : List Value} {change change' : Value → Value}

/-! ### At one field -/

theorem hasId_put_children : hasId id (v.put "children" w) = hasId id v := by
  rw [hasId, Value.getOrNull_put_of_ne (by decide), hasId]

theorem IsLocal.hasId_change (h : IsLocal change) (id v : Value) :
    hasId id (change v) = hasId id v := by
  rw [hasId, h.id, hasId]

theorem isLocal_id : IsLocal fun v => v := ⟨fun _ => rfl, fun _ => rfl, fun _ _ _ => rfl⟩

theorem IsLocal.changeAt (h : IsLocal change) (id : Value) : IsLocal (changeAt id change) where
  id v := by
    unfold Forest.changeAt
    split
    · exact h.id v
    · rfl
  isSection v := by
    unfold Forest.changeAt
    split
    · exact h.isSection v
    · rfl
  put_children cs hsection hchildren := by
    unfold Forest.changeAt
    rw [hasId_put_children]
    split
    · exact h.put_children cs hsection hchildren
    · rfl

/-- Changes at two ids can be made in either order. -/
theorem changeAt_changeAt (h : IsLocal change) (h' : IsLocal change')
    (hids : ∀ v, hasId a v = true → ¬ hasId b v = true) (v : Value) :
    changeAt b change' (changeAt a change v) = changeAt a change (changeAt b change' v) := by
  unfold changeAt
  by_cases ha : hasId a v = true
  · have hb := hids v ha
    rw [if_pos ha, h.hasId_change, if_neg hb, if_neg hb, if_pos ha]
  · rw [if_neg ha]
    split
    · rw [h'.hasId_change, if_neg ha]
    · rfl

/-! ### Below a field -/

theorem mapAll_eq_map (change : Value → Value) (vs : List Value) :
    mapAll change (vs.map ofValue) = vs.map (rebuilt change) := mapAll_map change vs

theorem rebuilt_of_isSection (hv : v.isSection = true) : rebuilt change v =
    change (v.put "children" (.list (v.childValues.map (rebuilt change)))) := by
  rw [rebuilt, mapField_ofValue, if_pos hv]
  rfl

theorem rebuilt_of_not_isSection (hv : ¬ v.isSection = true) : rebuilt change v = change v := by
  rw [rebuilt, mapField_ofValue, if_neg hv]

/-- A change of a section that gets other children is the section, changed, with these children. -/
theorem IsLocal.change_put_put (h : IsLocal change) (hv : v.isSection = true)
    (cs ds : List Value) : (change (v.put "children" (.list cs))).put "children" (.list ds) =
      change (v.put "children" (.list ds)) := by
  have hsection : (v.put "children" (.list cs)).isSection = true := by
    rwa [Value.isSection_put (by decide)]
  have hchildren : ((v.put "children" (.list cs)).get? "children").isSome = true := by
    rw [Value.get?_put_self (Value.isSection_iff.1 hv).1]
    rfl
  rw [← h.put_children ds hsection hchildren, Value.put_put]

theorem IsLocal.isSection_rebuilt (h : IsLocal change) (v : Value) :
    (rebuilt change v).isSection = v.isSection := by
  by_cases hv : v.isSection = true
  · rw [rebuilt_of_isSection hv, h.isSection, Value.isSection_put (by decide)]
  · rw [rebuilt_of_not_isSection hv, h.isSection]

theorem IsLocal.hasId_rebuilt (h : IsLocal change) (id v : Value) :
    hasId id (rebuilt change v) = hasId id v := by
  by_cases hv : v.isSection = true
  · rw [rebuilt_of_isSection hv, h.hasId_change, hasId_put_children]
  · rw [rebuilt_of_not_isSection hv, h.hasId_change]

/-- What is below a changed field is what was below it, changed. -/
theorem IsLocal.childValues_rebuilt (h : IsLocal change) (v : Value) :
    (rebuilt change v).childValues = v.childValues.map (rebuilt change) := by
  by_cases hv : v.isSection = true
  · have hsection : (rebuilt change v).isSection = true := (h.isSection_rebuilt v).trans hv
    rw [rebuilt_of_isSection hv] at hsection ⊢
    rw [← h.change_put_put hv (v.childValues.map (rebuilt change)),
      Value.childValues_put_children hsection]
  · have hsection : ¬ (rebuilt change v).isSection = true := by rwa [h.isSection_rebuilt]
    rw [Value.childValues_of_not_isSection hv, Value.childValues_of_not_isSection hsection]
    rfl

theorem IsLocal.listsChildren_rebuilt (h : IsLocal change) (v : Value) :
    (rebuilt change v).ListsChildren := by
  intro hsection
  have hv : v.isSection = true := (h.isSection_rebuilt v).symm.trans hsection
  rw [h.childValues_rebuilt, rebuilt_of_isSection hv, h.change_put_put hv]

/-- Two changes one after the other are both changes at each field. -/
theorem IsLocal.rebuilt_rebuilt (h : IsLocal change) (change' : Value → Value) (v : Value) :
    rebuilt change' (rebuilt change v) = rebuilt (fun u => change' (change u)) v := by
  induction v using owned_induction with
  | node v ih _ =>
      by_cases hv : v.isSection = true
      · have hsection : (rebuilt change v).isSection = true := (h.isSection_rebuilt v).trans hv
        have hbelow : (v.childValues.map (rebuilt change)).map (rebuilt change') =
            v.childValues.map (rebuilt fun u => change' (change u)) := by
          rw [List.map_map]
          exact List.map_congr_left ih
        rw [rebuilt_of_isSection hsection, h.childValues_rebuilt, hbelow, rebuilt_of_isSection hv,
          h.change_put_put hv, rebuilt_of_isSection hv]
      · have hsection : ¬ (rebuilt change v).isSection = true := by rwa [h.isSection_rebuilt]
        rw [rebuilt_of_not_isSection hsection, rebuilt_of_not_isSection hv,
          rebuilt_of_not_isSection hv]

/-- The nodes of a changed field are the nodes before, each one changed. -/
theorem IsLocal.nodes_rebuilt (h : IsLocal change) (v : Value) :
    (rebuilt change v).nodes = v.nodes.map (rebuilt change) := by
  induction v using owned_induction with
  | node v ih _ =>
      rw [Value.nodes_eq, Value.nodes_eq, h.childValues_rebuilt, List.flatMap_map, List.map_cons,
        List.map_flatMap]
      exact congrArg _ (List.flatMap_congr ih)

/-- Where a change does nothing, the field stays as it is. -/
theorem rebuilt_eq_self (hlists : ∀ u ∈ v.nodes, u.ListsChildren)
    (h : ∀ u ∈ v.nodes, change u = u) : rebuilt change v = v := by
  induction v using owned_induction with
  | node v ih _ =>
      rw [Value.nodes_eq, List.forall_mem_cons] at h hlists
      by_cases hv : v.isSection = true
      · have hbelow : v.childValues.map (rebuilt change) = v.childValues := by
          refine (List.map_congr_left fun c hc => ?_).trans (List.map_id _)
          exact ih c hc (fun u hu => hlists.2 u (List.mem_flatMap.2 ⟨c, hc, hu⟩))
            fun u hu => h.2 u (List.mem_flatMap.2 ⟨c, hc, hu⟩)
        rw [rebuilt_of_isSection hv, hbelow, hlists.1 hv, h.1]
      · rw [rebuilt_of_not_isSection hv, h.1]

private theorem replaceIn_eq_rebuilt (hlists : ∀ u ∈ v.nodes, u.ListsChildren)
    (hone : ∀ u ∈ v.nodes, hasId id u = true → u = w) :
    replaceIn id (change w) v = rebuilt (changeAt id change) v := by
  induction v using owned_induction with
  | node v ih _ =>
      have hbelow : ∀ {P : Value → Prop}, (∀ u ∈ v.nodes, P u) →
          ∀ c ∈ v.childValues, ∀ u ∈ c.nodes, P u := fun h c hc u hu => by
        rw [Value.nodes_eq] at h
        exact h u (.tail _ (List.mem_flatMap.2 ⟨c, hc, hu⟩))
      by_cases hid : hasId id v = true
      · obtain rfl := hone v (Value.mem_nodes_self v) hid
        -- The field does not stand below itself, so nothing there has its id.
        have hchildren : v.childValues.map (rebuilt (changeAt id change)) = v.childValues := by
          refine (List.map_congr_left fun c hc => ?_).trans (List.map_id _)
          refine rebuilt_eq_self (hbelow hlists c hc) fun u hu => if_neg fun huid => ?_
          exact Value.notMem_nodes_of_mem_childValues hc (hbelow hone c hc u hu huid ▸ hu)
        rw [replaceIn_of_hasId hid]
        by_cases hv : v.isSection = true
        · rw [rebuilt_of_isSection hv, hchildren, hlists v (Value.mem_nodes_self v) hv, changeAt,
            if_pos hid]
        · rw [rebuilt_of_not_isSection hv, changeAt, if_pos hid]
      · have hnot := Bool.eq_false_iff.2 hid
        by_cases hv : v.isSection = true
        · have hchildren : v.childValues.map (replaceIn id (change w)) =
              v.childValues.map (rebuilt (changeAt id change)) :=
            List.map_congr_left fun c hc => ih c hc (hbelow hlists c hc) (hbelow hone c hc)
          rw [replaceIn_of_isSection hnot hv, hchildren, rebuilt_of_isSection hv, changeAt,
            hasId_put_children, if_neg hid]
        · rw [replaceIn_of_not_isSection hnot hv, rebuilt_of_not_isSection hv, changeAt, if_neg hid]

/-! ### In a forest -/

/-- Replacing the only field with an id by what a change makes of it is changing it where it stands. -/
theorem replace_eq_mapAll (hlists : ∀ u ∈ vs.flatMap nodes, u.ListsChildren)
    (hone : ∀ u ∈ vs.flatMap nodes, hasId id u = true → u = w) :
    replace id (change w) (vs.map ofValue) = mapAll (changeAt id change) (vs.map ofValue) := by
  rw [replace_map, mapAll_eq_map]
  exact List.map_congr_left fun v hv => replaceIn_eq_rebuilt
    (fun u hu => hlists u (List.mem_flatMap.2 ⟨v, hv, hu⟩))
    fun u hu => hone u (List.mem_flatMap.2 ⟨v, hv, hu⟩)

theorem mapAll_eq_self (hlists : ∀ u ∈ vs.flatMap nodes, u.ListsChildren)
    (h : ∀ u ∈ vs.flatMap nodes, change u = u) : mapAll change (vs.map ofValue) = vs := by
  rw [mapAll_eq_map]
  refine (List.map_congr_left fun v hv => ?_).trans (List.map_id _)
  exact rebuilt_eq_self (fun u hu => hlists u (List.mem_flatMap.2 ⟨v, hv, hu⟩))
    fun u hu => h u (List.mem_flatMap.2 ⟨v, hv, hu⟩)

theorem IsLocal.mapAll_mapAll (h : IsLocal change) (change' : Value → Value) (vs : List Value) :
    mapAll change' ((mapAll change (vs.map ofValue)).map ofValue) =
      mapAll (fun v => change' (change v)) (vs.map ofValue) := by
  rw [mapAll_eq_map, mapAll_eq_map, mapAll_eq_map, List.map_map]
  exact List.map_congr_left fun v _ => h.rebuilt_rebuilt change' v

theorem IsLocal.nodes_mapAll (h : IsLocal change) (vs : List Value) :
    (mapAll change (vs.map ofValue)).flatMap nodes = (vs.flatMap nodes).map (rebuilt change) := by
  rw [mapAll_eq_map, List.flatMap_map, List.map_flatMap]
  exact List.flatMap_congr fun v _ => h.nodes_rebuilt v

theorem IsLocal.listsChildren_mapAll (h : IsLocal change) :
    ∀ u ∈ (mapAll change (vs.map ofValue)).flatMap nodes, u.ListsChildren := by
  rw [h.nodes_mapAll]
  exact List.forall_mem_map.2 fun v _ => h.listsChildren_rebuilt v

/-- A search after a change finds the field that it found before, changed. -/
theorem IsLocal.find?_mapAll (h : IsLocal change) (hfound : find? id (vs.map ofValue) =
    some (ofValue v)) : find? id ((mapAll change (vs.map ofValue)).map ofValue) =
      some (ofValue (rebuilt change v)) := by
  rw [find?_map] at hfound
  obtain ⟨u, hu, heq⟩ := Option.map_eq_some_iff.1 hfound
  obtain rfl := Field.ofValue_injective heq
  have hsame : hasId id ∘ rebuilt change = hasId id := funext fun w => h.hasId_rebuilt id w
  rw [find?_map, h.nodes_mapAll, List.find?_map, hsame, hu]
  rfl

end Forest

end FormDesigner
