import FormDesigner.Proofs.Field.Replacing

/-!
# One field in a forest

Removing a field, changing it and adding to its children all put other fields into its place and leave
the rest of the forest alone. `Spliced` says so of the forests before and after: they are the same but
for one place. What a forest owns is then the same too, but for one stretch of it.
-/

namespace FormDesigner

namespace Value

variable {v w : Value} {n : String}

/-- A field without its children, but with all else that it has. -/
def bare (v : Value) : Value := v.drop "children"

theorem getOrNull_bare (hn : n ≠ "children") : v.bare.getOrNull n = v.getOrNull n := by
  cases v with
  | map es => exact congrArg (·.getD .null) (Entries.get?_erase_of_ne hn)
  | _ => rfl

theorem isMap_bare (v : Value) : v.bare.isMap = v.isMap := by
  cases v <;> rfl

theorem bare_put_children : (v.put "children" w).bare = v.bare := by
  cases v with
  | map es => exact congrArg Value.map Entries.erase_insert_self
  | _ => rfl

theorem put_eq_self (hv : v.IsProper) (h : v.get? n = some w) : v.put n w = v := by
  cases v with
  | map es => exact congrArg Value.map (Entries.insert_eq_self hv.names_nodup h)
  | _ => rfl

/-- What JSON can carry and has items is a list. -/
theorem IsIn.eq_list {xs : List Value} (hv : v.IsJson) (hxs : Shape.itemsOf? v = some xs) :
    v = .list xs := by
  rcases itemsOf?_eq_some hxs with rfl | rfl | rfl
  · rfl
  · cases hv with
    | scalar hscalar => cases hscalar
    | tuple node => exact node.elim
  · cases hv with
    | scalar hscalar => cases hscalar
    | set node => exact node.elim

/-- The children of a section that JSON can carry stand in a list. -/
theorem put_childValues (hv : v.IsJson) (hfits : v.Fits) (hsection : v.isSection = true) :
    v.put "children" (.list v.childValues) = v := by
  cases hfits with
  | @intro es type kind own children template =>
      obtain rfl := (isSection_map_iff kind).1 hsection
      obtain ⟨list, xs, hlist, hxs, hvalues⟩ :=
        (Fits.intro kind own children template).exists_children kind
      have hjson : list.IsJson := hv.get? (n := "children") hlist
      rw [hvalues]
      exact put_eq_self hv.isProper (hjson.eq_list hxs ▸ hlist)

theorem owned_of_isSection (hv : v.isSection = true) :
    v.owned = v :: v.childValues.flatMap owned := by
  rw [owned_eq, fieldTemplate_of_isSection hv, List.flatMap_nil, List.append_nil]

/-- A section with one more child. -/
def withChild (v new : Value) : Value := v.put "children" (.list (v.childValues ++ [new]))

theorem childValues_withChild (hv : v.isSection = true) (new : Value) :
    (v.withChild new).childValues = v.childValues ++ [new] :=
  childValues_put_children hv _

theorem gathered_withChild (hv : v.isSection = true) (hn : n ≠ "children") (new : Value) :
    (v.withChild new).gathered n = v.gathered n ++ new.gathered n := by
  rw [withChild, gathered_put_children hv hn, gathered_of_isSection hv, List.flatMap_append,
    List.flatMap_singleton, List.cons_append]

theorem map_bare_owned (hn : n ≠ "children") (vs : List Value) :
    ((vs.flatMap owned).map bare).map (fun v => v.getOrNull n) = vs.flatMap (gathered n) := by
  rw [List.map_map, List.map_flatMap]
  exact List.flatMap_congr fun v _ => List.map_congr_left fun w _ => getOrNull_bare hn

end Value

namespace Forest

open Value (bare gathered nodes owned owned_induction)
open FormDesigner.Field (ofValue)

variable {id w new : Value} {ws vs us : List Value} {n : String}

/-- Fields, and the same fields with `ws` in the one place where `w` was among them or below. -/
inductive Spliced (w : Value) (ws : List Value) : List Value → List Value → Prop
  | here (before after : List Value) : Spliced w ws (before ++ w :: after) (before ++ ws ++ after)
  | inside (before after : List Value) {v : Value} {cs : List Value} (isSection : v.isSection = true)
      (below : Spliced w ws v.childValues cs) :
      Spliced w ws (before ++ v :: after) (before ++ v.put "children" (.list cs) :: after)

namespace Spliced

theorem append (h : Spliced w ws vs us) (before after : List Value) :
    Spliced w ws (before ++ vs ++ after) (before ++ us ++ after) := by
  cases h with
  | here before' after' =>
      have h : Spliced w ws (before ++ before' ++ w :: (after' ++ after))
          (before ++ before' ++ ws ++ (after' ++ after)) := .here _ _
      simpa only [List.append_assoc, List.cons_append] using h
  | inside before' after' isSection below =>
      have h := inside (before ++ before') (after' ++ after) isSection below
      simpa only [List.append_assoc, List.cons_append] using h

/-- What fields own stays the same around the place, children aside. -/
theorem owned (h : Spliced w ws vs us) : ∃ before after,
    (vs.flatMap owned).map bare = before ++ w.owned.map bare ++ after ∧
      (us.flatMap owned).map bare = before ++ (ws.flatMap Value.owned).map bare ++ after := by
  induction h with
  | here before after =>
      refine ⟨(before.flatMap Value.owned).map bare, (after.flatMap Value.owned).map bare, ?_, ?_⟩
      · rw [List.flatMap_append, List.flatMap_cons, List.map_append, List.map_append,
          List.append_assoc]
      · rw [List.flatMap_append, List.flatMap_append, List.map_append, List.map_append]
  | @inside before after v cs isSection _ ih =>
      obtain ⟨before', after', hbefore, hafter⟩ := ih
      have hput : (v.put "children" (.list cs)).owned =
          v.put "children" (.list cs) :: cs.flatMap Value.owned := by
        rw [Value.owned_of_isSection (by rwa [Value.isSection_put (by decide)]),
          Value.childValues_put_children isSection]
      refine ⟨(before.flatMap Value.owned).map bare ++ v.bare :: before',
        after' ++ (after.flatMap Value.owned).map bare, ?_, ?_⟩
      · rw [List.flatMap_append, List.flatMap_cons, Value.owned_of_isSection isSection,
          List.map_append, List.map_append, List.map_cons, hbefore]
        simp only [List.append_assoc, List.cons_append]
      · rw [List.flatMap_append, List.flatMap_cons, hput, List.map_append, List.map_append,
          List.map_cons, hafter, Value.bare_put_children]
        simp only [List.append_assoc, List.cons_append]

/-- What is put into the place can be found there, and so can all that is below it. -/
theorem nodes_subset (h : Spliced w ws vs us) : ws.flatMap nodes ⊆ us.flatMap nodes := by
  induction h with
  | here before after =>
      rw [List.flatMap_append, List.flatMap_append]
      exact fun _ hu => List.mem_append_left _ (List.mem_append_right _ hu)
  | @inside before after v cs isSection _ ih =>
      intro u hu
      refine List.mem_flatMap.2 ⟨v.put "children" (.list cs), ?_, ?_⟩
      · exact List.mem_append_right _ (.head _)
      · rw [Value.nodes_eq, Value.childValues_put_children isSection]
        exact .tail _ (ih hu)

theorem mem_nodes {u : Value} (h : Spliced w ws vs us) (hu : u ∈ ws) : u ∈ us.flatMap nodes :=
  h.nodes_subset (List.mem_flatMap.2 ⟨u, hu, Value.mem_nodes_self u⟩)

/-- What stood in the place could be found there. -/
theorem mem_nodes_before (h : Spliced w ws vs us) : w ∈ vs.flatMap nodes := by
  induction h with
  | here before after =>
      exact List.mem_flatMap.2 ⟨w, List.mem_append_right _ (.head _), Value.mem_nodes_self w⟩
  | @inside before after v cs _ _ ih =>
      refine List.mem_flatMap.2 ⟨v, List.mem_append_right _ (.head _), ?_⟩
      rw [Value.nodes_eq]
      exact .tail _ ih

/-- A field is still there, as it was, if it does not enclose the place and is not lost with what
stood in it. -/
theorem keeps {u : Value} (h : Spliced w ws vs us) (hu : u ∈ vs.flatMap nodes)
    (outside : w ∉ u.nodes) (inside : u ∈ w.nodes → u ∈ ws.flatMap nodes) :
    u ∈ us.flatMap nodes := by
  induction h with
  | here before after =>
      rw [List.flatMap_append, List.flatMap_cons, List.mem_append, List.mem_append] at hu
      rw [List.flatMap_append, List.flatMap_append, List.mem_append, List.mem_append]
      rcases hu with hu | hu | hu
      · exact .inl (.inl hu)
      · exact .inl (.inr (inside hu))
      · exact .inr hu
  | @inside before after v cs isSection below ih =>
      rw [List.flatMap_append, List.flatMap_cons, Value.nodes_eq, List.mem_append,
        List.mem_append, List.mem_cons] at hu
      rw [List.flatMap_append, List.flatMap_cons, Value.nodes_eq,
        Value.childValues_put_children isSection, List.mem_append, List.mem_append, List.mem_cons]
      rcases hu with hu | (rfl | hu) | hu
      · exact .inl hu
      · rw [Value.nodes_eq] at outside
        exact absurd (List.mem_cons_of_mem _ below.mem_nodes_before) outside
      · exact .inr (.inl (.inr (ih hu)))
      · exact .inr (.inr hu)

/-- So do the values of an attribute. -/
theorem gathered (hn : n ≠ "children") (h : Spliced w ws vs us) : ∃ before after,
    vs.flatMap (gathered n) = before ++ w.gathered n ++ after ∧
      us.flatMap (Value.gathered n) = before ++ ws.flatMap (Value.gathered n) ++ after := by
  obtain ⟨before, after, hbefore, hafter⟩ := h.owned
  have hw : (w.owned.map bare).map (fun v => v.getOrNull n) = w.gathered n := by
    rw [List.map_map]
    exact List.map_congr_left fun v _ => Value.getOrNull_bare hn
  refine ⟨before.map fun v => v.getOrNull n, after.map fun v => v.getOrNull n, ?_, ?_⟩
  · rw [← Value.map_bare_owned hn, hbefore, List.map_append, List.map_append, hw]
  · rw [← Value.map_bare_owned hn, hafter, List.map_append, List.map_append,
      Value.map_bare_owned hn]

end Spliced

/-! ### Changing the field with an id -/

private theorem not_equals_of_hasId {v : Value} (h : hasId id v = false) :
    ¬ (v.getOrNull "id").equals id = true := Bool.eq_false_iff.1 h

/-- A change of fields that rebuilds sections from their changed children and leaves other fields
alone, but may do anything to fields with the id. -/
structure Rebuilds (id : Value) (change : Value → List Value) : Prop where
  section_eq : ∀ v, hasId id v = false → v.isSection = true →
    change v = [v.put "children" (.list (v.childValues.flatMap change))]
  other_eq : ∀ v, hasId id v = false → ¬ v.isSection = true → change v = [v]

namespace Rebuilds

variable {change : Value → List Value} {v : Value}

private theorem flatMap_eq_self (h : ∀ v ∈ vs, change v = [v]) : vs.flatMap change = vs := by
  rw [List.flatMap_congr h]
  exact List.flatMap_singleton' vs

/-- Where nothing has the id, nothing is changed. -/
theorem eq_self (h : Rebuilds id change) (hv : v.IsJson ∧ v.Fits)
    (hid : ∀ w ∈ v.nodes, hasId id w = false) : change v = [v] := by
  induction v using owned_induction with
  | node v ih _ =>
      rw [Value.nodes_eq, List.forall_mem_cons] at hid
      obtain ⟨hself, hbelow⟩ := hid
      by_cases hsection : v.isSection = true
      · have hchildren : v.childValues.flatMap change = v.childValues :=
          flatMap_eq_self fun c hc => ih c hc
            ⟨hv.1.childValues c hc, hv.2.children c hc⟩
            fun w hw => hbelow w (List.mem_flatMap.2 ⟨c, hc, hw⟩)
        rw [h.section_eq v hself hsection, hchildren, Value.put_childValues hv.1 hv.2 hsection]
      · exact h.other_eq v hself hsection

private theorem spliced_of_mem (h : Rebuilds id change)
    (hvs : ∀ v ∈ vs, v.IsJson ∧ v.Fits) (hids : (vs.flatMap (Value.gathered "id")).Nodup)
    (hwid : hasId id w = true) (hv : v ∈ vs) (hw : w ∈ v.nodes)
    (hspliced : Spliced w ws [v] (change v)) : Spliced w ws vs (vs.flatMap change) := by
  obtain ⟨before, after, rfl⟩ := List.append_of_mem hv
  have hfits : ∀ u ∈ before ++ v :: after, u.Fits := fun u hu => (hvs u hu).2
  have hnodup := hids
  rw [List.flatMap_append, List.flatMap_cons] at hnodup
  obtain ⟨-, hrest, hbefore⟩ := List.nodup_append'.1 hnodup
  obtain ⟨-, -, hafter⟩ := List.nodup_append'.1 hrest
  have hkept : ∀ us : List Value, (∀ u ∈ us, u ∈ before ++ v :: after) →
      (us.flatMap (Value.gathered "id")).Disjoint (v.gathered "id") → us.flatMap change = us :=
    fun us hus hdisjoint => flatMap_eq_self fun u hu => h.eq_self (hvs u (hus u hu))
      (hasId_eq_false hfits hids hw hwid hv hus hdisjoint u hu)
  have hstart := hkept before (fun u hu => List.mem_append_left _ hu)
    fun x hx hxv => hbefore hx (List.mem_append_left _ hxv)
  have hend := hkept after (fun u hu => List.mem_append_right _ (.tail _ hu))
    fun x hx hxv => hafter hxv hx
  rw [List.flatMap_append, List.flatMap_cons, hstart, hend, ← List.append_assoc,
    List.append_cons before v after]
  exact hspliced.append before after

private theorem spliced_singleton (h : Rebuilds id change) (hws : change w = ws)
    (hwid : hasId id w = true) (hv : v.IsJson ∧ v.Fits) (hids : (v.gathered "id").Nodup)
    (hw : w ∈ v.nodes) : Spliced w ws [v] (change v) := by
  induction v using owned_induction with
  | node v ih _ =>
      by_cases hself : hasId id v = true
      · have hfits : ∀ u ∈ [v], u.Fits := List.forall_mem_singleton.2 hv.2
        have hone : v = w := by
          refine eq_of_hasId hfits (by rwa [List.flatMap_singleton]) ?_ ?_ hself hwid
          · rw [List.flatMap_singleton]
            exact Value.mem_nodes_self v
          · rwa [List.flatMap_singleton]
        subst hone
        have hhere : Spliced v ws ([] ++ v :: []) ([] ++ ws ++ []) := .here [] []
        rw [hws]
        rwa [List.append_nil, List.nil_append, List.nil_append] at hhere
      · have hself := Bool.eq_false_iff.2 hself
        rw [Value.nodes_eq] at hw
        rcases List.mem_cons.1 hw with rfl | hw
        · rw [hwid] at hself
          cases hself
        · obtain ⟨c, hc, hwc⟩ := List.mem_flatMap.1 hw
          have hsection : v.isSection = true := (Value.mem_childValues hc).1
          have hchildren : ∀ c ∈ v.childValues, c.IsJson ∧ c.Fits := fun c hc =>
            ⟨hv.1.childValues c hc, hv.2.children c hc⟩
          have hbelow : (v.childValues.flatMap (Value.gathered "id")).Nodup := by
            rw [Value.gathered_of_isSection hsection] at hids
            exact (List.nodup_cons.1 hids).2
          have hcids : (c.gathered "id").Nodup :=
            hbelow.sublist (List.sublist_flatten_of_mem (List.mem_map_of_mem hc))
          rw [h.section_eq v hself hsection]
          exact .inside [] [] hsection
            (h.spliced_of_mem hchildren hbelow hwid hc hwc (ih c hc (hchildren c hc) hcids hwc))

/-- Where ids differ, changing the field with an id changes it alone. -/
theorem spliced (h : Rebuilds id change) (hvs : ∀ v ∈ vs, v.IsJson ∧ v.Fits)
    (hids : (vs.flatMap (Value.gathered "id")).Nodup) (hw : w ∈ vs.flatMap nodes)
    (hwid : hasId id w = true) (hws : change w = ws) : Spliced w ws vs (vs.flatMap change) := by
  obtain ⟨v, hv, hwv⟩ := List.mem_flatMap.1 hw
  have hvids : (v.gathered "id").Nodup :=
    hids.sublist (List.sublist_flatten_of_mem (List.mem_map_of_mem hv))
  exact h.spliced_of_mem hvs hids hwid hv hwv (h.spliced_singleton hws hwid (hvs v hv) hvids hwv)

end Rebuilds

theorem rebuilds_remove (id : Value) : Rebuilds id fun v => removeField id (ofValue v) := by
  refine ⟨fun v hv hsection => ?_, fun v hv hsection => ?_⟩
  · rw [removeField_ofValue, if_neg (not_equals_of_hasId hv), if_pos hsection]
  · rw [removeField_ofValue, if_neg (not_equals_of_hasId hv), if_neg hsection]

/-- Where nothing has the id, nothing is removed. -/
theorem remove_eq_self (hvs : ∀ v ∈ vs, v.IsJson ∧ v.Fits)
    (hid : find? id (vs.map ofValue) = none) : remove id (vs.map ofValue) = vs := by
  rw [find?_map, Option.map_eq_none_iff] at hid
  rw [remove_map, List.flatMap_congr fun v hv => (rebuilds_remove id).eq_self (hvs v hv) fun w hw =>
    Bool.eq_false_iff.2 (List.find?_eq_none.1 hid w (List.mem_flatMap.2 ⟨v, hv, hw⟩))]
  exact List.flatMap_singleton' vs

section Changes

variable (hvs : ∀ v ∈ vs, v.IsJson ∧ v.Fits) (hids : (vs.flatMap (gathered "id")).Nodup)
  (hw : w ∈ vs.flatMap nodes) (hwid : hasId id w = true)
include hvs hids hw hwid

/-- Removing a field leaves everything around it. -/
theorem remove_spliced : Spliced w [] vs (remove id (vs.map ofValue)) := by
  rw [remove_map]
  refine (rebuilds_remove id).spliced hvs hids hw hwid ?_
  rw [removeField_ofValue, if_pos (show (w.getOrNull "id").equals id = true from hwid)]

/-- Replacing a field changes nothing around it. -/
theorem replace_spliced (new : Value) : Spliced w [new] vs (replace id new (vs.map ofValue)) := by
  have h : Rebuilds id fun v => [replaceIn id new v] := by
    refine ⟨fun v hv hsection => ?_, fun v hv hsection => ?_⟩
    · rw [replaceIn_of_isSection hv hsection, ← List.map_eq_flatMap]
    · rw [replaceIn_of_not_isSection hv hsection]
  rw [replace_map, List.map_eq_flatMap]
  exact h.spliced hvs hids hw hwid (by rw [replaceIn_of_hasId hwid])

/-- Appending a field to a section changes nothing but the children of the section. -/
theorem append_spliced (hsection : w.isSection = true) (new : Value) :
    Spliced w [w.withChild new] vs (append id new (vs.map ofValue)) := by
  have h : Rebuilds id fun v => [appendIn id new (ofValue v)] := by
    refine ⟨fun v hv hsection => ?_, fun v hv hsection => ?_⟩
    · rw [appendIn_ofValue, if_pos hsection, if_neg (not_equals_of_hasId hv),
        ← List.map_eq_flatMap]
    · rw [appendIn_ofValue, if_neg hsection]
  rw [append_map, List.map_eq_flatMap]
  refine h.spliced hvs hids hw hwid ?_
  rw [appendIn_ofValue, if_pos hsection,
    if_pos (show (w.getOrNull "id").equals id = true from hwid)]
  rfl

end Changes

end Forest

end FormDesigner
