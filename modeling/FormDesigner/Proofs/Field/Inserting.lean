import FormDesigner.Proofs.Field.Placing
import FormDesigner.Proofs.Field.Splicing

/-!
# Taking back an insertion

A field that is put into a section goes last among its children, under an id that nothing else has.
So it is found by that id, and removing what has the id rebuilds all sections on the way as they
were. A field can be put into a section only where that is found by its id, which the sections that
arrays repeat are not.
-/

namespace FormDesigner

namespace Forest

open Value (gathered nodes)
open FormDesigner.Field (ofValue)

variable {id w new : Value} {vs us : List Value}

/-- An id that no field of a forest has is not the id of any field that can be found there. -/
theorem hasId_eq_false_of_notMem (hfits : ∀ v ∈ vs, v.Fits) (hid : id ∉ ids (vs.map ofValue)) :
    ∀ w ∈ vs.flatMap nodes, hasId id w = false := by
  intro w hw
  obtain ⟨v, hv, hw⟩ := List.mem_flatMap.1 hw
  have howned : w ∈ v.owned := (Value.nodes_sublist_owned v).subset hw
  obtain ⟨s, -, hs⟩ := ((hfits v hv).owned w howned).id
  rw [hasId, hs, Bool.eq_false_iff]
  intro heq
  apply hid
  rw [ids_map, Value.equals_text_iff.1 heq, ← hs]
  exact List.mem_flatMap.2 ⟨v, hv, List.mem_map_of_mem howned⟩

theorem remove_append (id : Value) (vs us : List Value) :
    remove id ((vs ++ us).map ofValue) =
      remove id (vs.map ofValue) ++ remove id (us.map ofValue) := by
  rw [remove_map, remove_map, remove_map, List.flatMap_append]

theorem remove_of_absent (hvs : ∀ v ∈ vs, v.IsJson ∧ v.Fits)
    (hid : ∀ u ∈ vs.flatMap nodes, hasId id u = false) : remove id (vs.map ofValue) = vs :=
  remove_eq_self hvs (find?_eq_none_iff.2 hid)

/-- What is removed between fields without the id leaves them as they are. -/
theorem remove_between {before after : List Value} {v u : Value}
    (hvs : ∀ x ∈ before ++ v :: after, x.IsJson ∧ x.Fits)
    (hid : ∀ x ∈ (before ++ v :: after).flatMap nodes, hasId id x = false)
    (hu : removeField id (ofValue u) = [v]) :
    remove id ((before ++ [u] ++ after).map ofValue) = before ++ v :: after := by
  simp only [List.forall_mem_append, List.forall_mem_cons, List.flatMap_append,
    List.flatMap_cons] at hvs hid
  have hmiddle : remove id ([u].map ofValue) = [v] := by
    rw [remove_map, List.flatMap_singleton, hu]
  rw [remove_append, remove_append, remove_of_absent hvs.1 hid.1, hmiddle,
    remove_of_absent hvs.2.2 hid.2.2, List.append_assoc, List.singleton_append]

/-- Where a field with the id is gone from among the children of a section, and nothing else is, the
section is as it was. -/
theorem removeField_put_children {v : Value} {cs : List Value} (hv : v.IsJson ∧ v.Fits)
    (hsection : v.isSection = true) (hid : hasId id v = false)
    (hcs : remove id (cs.map ofValue) = v.childValues) :
    removeField id (ofValue (v.put "children" (.list cs))) = [v] := by
  have hstays : ¬ ((v.put "children" (.list cs)).getOrNull "id").equals id = true := by
    rw [Value.getOrNull_put_of_ne (by decide)]
    exact Bool.eq_false_iff.1 hid
  have hsection' : (v.put "children" (.list cs)).isSection = true := by
    rwa [Value.isSection_put (by decide)]
  rw [removeField_ofValue, if_neg hstays, if_pos hsection', ← remove_map,
    Value.childValues_put_children hsection, hcs, Value.put_put,
    Value.put_childValues hv.1 hv.2 hsection]

/-- In a section that does not have the id itself, the first field with the id is the first one among
the children. -/
theorem find?_nodes_put_children {v : Value} {cs : List Value} (hsection : v.isSection = true)
    (hid : hasId id v = false) : (v.put "children" (.list cs)).nodes.find? (hasId id) =
      (cs.flatMap nodes).find? (hasId id) := by
  have hself : ¬ hasId id (v.put "children" (.list cs)) = true := by
    rw [hasId, Value.getOrNull_put_of_ne (by decide)]
    exact Bool.eq_false_iff.1 hid
  rw [Value.nodes_eq, List.find?_cons_of_neg hself, Value.childValues_put_children hsection]

namespace Spliced

variable (hnew : hasId id new = true) (hsection : w.isSection = true)
include hnew hsection

/-- By induction on the way to the section: what was rebuilt on the way is rebuilt as it was. -/
theorem remove_child (h : Spliced w [w.withChild new] vs us) (hvs : ∀ v ∈ vs, v.IsJson ∧ v.Fits)
    (hid : ∀ u ∈ vs.flatMap nodes, hasId id u = false) : remove id (us.map ofValue) = vs := by
  induction h with
  | here before after =>
      have hmem : w ∈ before ++ w :: after := List.mem_append_right _ (.head _)
      have hnone : ∀ u ∈ w.nodes, hasId id u = false := fun u hu =>
        hid u (List.mem_flatMap.2 ⟨w, hmem, hu⟩)
      rw [Value.nodes_eq, List.forall_mem_cons] at hnone
      have hgone : remove id ([new].map ofValue) = [] := by
        rw [remove_map, List.flatMap_singleton, removeField_ofValue]
        exact if_pos hnew
      have hchildren : remove id ((w.childValues ++ [new]).map ofValue) = w.childValues := by
        rw [remove_append, hgone, List.append_nil]
        exact remove_of_absent
          (fun c hc => ⟨(hvs w hmem).1.childValues c hc, (hvs w hmem).2.children c hc⟩) hnone.2
      exact remove_between hvs hid (removeField_put_children (hvs w hmem) hsection hnone.1 hchildren)
  | @inside before after v cs hv below ih =>
      have hmem : v ∈ before ++ v :: after := List.mem_append_right _ (.head _)
      have hnone : ∀ u ∈ v.nodes, hasId id u = false := fun u hu =>
        hid u (List.mem_flatMap.2 ⟨v, hmem, hu⟩)
      rw [Value.nodes_eq, List.forall_mem_cons] at hnone
      have hchildren : remove id (cs.map ofValue) = v.childValues :=
        ih (fun c hc => ⟨(hvs v hmem).1.childValues c hc, (hvs v hmem).2.children c hc⟩) hnone.2
      rw [List.append_cons]
      exact remove_between hvs hid (removeField_put_children (hvs v hmem) hv hnone.1 hchildren)

/-- The new child is the first that has its id, whatever it owns itself. -/
theorem find?_child (h : Spliced w [w.withChild new] vs us)
    (hid : ∀ u ∈ vs.flatMap nodes, hasId id u = false) :
    find? id (us.map ofValue) = some (ofValue new) := by
  have hnone : ∀ {us : List Value}, (∀ u ∈ us, hasId id u = false) → us.find? (hasId id) = none :=
    fun h => List.find?_eq_none.2 fun u hu => Bool.eq_false_iff.1 (h u hu)
  suffices hfirst : (us.flatMap nodes).find? (hasId id) = some new by
    rw [find?_map, hfirst, Option.map_some]
  induction h with
  | here before after =>
      simp only [List.forall_mem_append, List.flatMap_append, List.flatMap_cons] at hid
      obtain ⟨hbefore, hhere, -⟩ := hid
      rw [Value.nodes_eq, List.forall_mem_cons] at hhere
      have hself : new.nodes.find? (hasId id) = some new := by
        rw [Value.nodes_eq, List.find?_cons_of_pos hnew]
      have hinside : (w.withChild new).nodes.find? (hasId id) = some new := by
        rw [Value.withChild, find?_nodes_put_children hsection hhere.1, List.flatMap_append,
          List.find?_append, hnone hhere.2, List.flatMap_singleton, hself, Option.none_or]
      rw [List.flatMap_append, List.flatMap_append, List.find?_append, List.find?_append,
        hnone hbefore, List.flatMap_singleton, hinside, Option.none_or, Option.some_or]
  | @inside before after v cs hv below ih =>
      simp only [List.forall_mem_append, List.flatMap_append, List.flatMap_cons] at hid
      obtain ⟨hbefore, hhere, -⟩ := hid
      rw [Value.nodes_eq, List.forall_mem_cons] at hhere
      rw [List.flatMap_append, List.flatMap_cons, List.find?_append, List.find?_append,
        hnone hbefore, find?_nodes_put_children hv hhere.1, ih hhere.2, Option.none_or,
        Option.some_or]

end Spliced

theorem insertChild_of_section {target : Value} {g : Field}
    (hfound : find? target (vs.map ofValue) = some g) (hsection : g.isSection = true) :
    insertChild target new (vs.map ofValue) = append target new (vs.map ofValue) := by
  rw [insertChild, hfound]
  exact if_pos hsection

theorem sample_isIn {D : Value.Domain} (type : FieldType) (name : String)
    {more : List (String × Value)} (hnames : ((Factory.basicField name name type.name (.text name) ++
      more).map Prod.fst).Nodup) (hmore : ∀ f ∈ more, f.2.IsIn D) :
    (sample type name more).IsIn D :=
  .ofFields hnames (List.forall_mem_append.2
    ⟨Factory.basicField_isIn _ _ _ (.text name), hmore⟩)

theorem sampleForest_isIn (D : Value.Domain) : ∀ v ∈ sampleForest, v.IsIn D := by
  have htext (name : String) : (sample .text name []).IsIn D :=
    sample_isIn .text name (by simp [Factory.basicField]) (List.forall_mem_nil _)
  have hsection (name : String) {v : Value} (hv : v.IsIn D) :
      (sample .section name [("children", .list [v])]).IsIn D :=
    sample_isIn .section name (by simp [Factory.basicField])
      (List.forall_mem_singleton.2 (.list (List.forall_mem_singleton.2 hv)))
  simp only [sampleForest, List.forall_mem_cons]
  refine ⟨hsection "a" (hsection "b" (htext "c")), ?_, htext "f", List.forall_mem_nil _⟩
  exact sample_isIn .array "d" (by simp [Factory.basicField])
    (List.forall_mem_singleton.2 (hsection "t" (htext "e")))

/-- In a forest of well-shaped fields that JSON can carry, no two of them with one id, a field can be
put into each section that is found, if its id is not taken: it is found by its id then, and removing
what has the id gives the forest back. Under any other id nothing is changed. -/
theorem insertChild_undone (hjson : ∀ v ∈ vs, v.IsJson) (hshape : ∀ v ∈ vs, fieldProblems v = [])
    (hids : (ids (ofValues vs)).Nodup) :
    (∀ target g new, find? target (ofValues vs) = some g → g.isSection = true → new.IsJson →
      new.getOrNull "id" ∉ ids (ofValues vs) →
        remove (new.getOrNull "id") (ofValues (insertChild target new (ofValues vs))) = vs ∧
          find? (new.getOrNull "id") (ofValues (insertChild target new (ofValues vs))) =
            some (ofValue new)) ∧
    ∀ target new, (∀ g, find? target (ofValues vs) = some g → g.isSection = false) →
      insertChild target new (ofValues vs) = vs := by
  have hfits : ∀ v ∈ vs, v.Fits := fun v hv => fieldProblems_eq_nil_iff.1 (hshape v hv)
  have hvs : ∀ v ∈ vs, v.IsJson ∧ v.Fits := fun v hv => ⟨hjson v hv, hfits v hv⟩
  simp only [ofValues_eq_map] at hids ⊢
  constructor
  · intro target g new hfound hsection hnew hid
    have hself : hasId (new.getOrNull "id") new = true :=
      Json.equals_self (hnew.getOrNull trivial)
    have hnone := hasId_eq_false_of_notMem hfits hid
    obtain ⟨w, hw, hwid, rfl⟩ := find?_eq_some hfound
    rw [Field.isSection, Field.value_ofValue] at hsection
    rw [ids_map] at hids
    have hspliced := append_spliced hvs hids hw hwid hsection new
    rw [insertChild_of_section hfound (by rwa [Field.isSection, Field.value_ofValue])]
    exact ⟨hspliced.remove_child hself hsection hvs hnone, hspliced.find?_child hself hsection hnone⟩
  · intro target new hother
    rw [insertChild]
    cases hfound : find? target (vs.map ofValue) with
    | none => exact toValues_map_ofValue vs
    | some g =>
        dsimp only
        rw [hother g hfound, if_neg (by decide), toValues_map_ofValue]

/-- A field that is put into the inner section can be taken out of it again, and nothing can be put
into a field that is no section. -/
theorem inserted_into_sampleForest :
    let new := sample .text "z" []
    (∀ v ∈ sampleForest, v.IsJson) ∧ (∀ v ∈ sampleForest, fieldProblems v = []) ∧
      (ids (ofValues sampleForest)).Nodup ∧
      (∃ g, find? (.text "b") (ofValues sampleForest) = some g ∧ g.isSection = true) ∧
      new.IsJson ∧ new.getOrNull "id" = .text "z" ∧ .text "z" ∉ ids (ofValues sampleForest) ∧
      (remove (.text "z") (ofValues (insertChild (.text "b") new (ofValues sampleForest))) =
        sampleForest ∧
        find? (.text "z") (ofValues (insertChild (.text "b") new (ofValues sampleForest))) =
          some (ofValue new)) ∧
      insertChild (.text "f") new (ofValues sampleForest) = sampleForest := by
  intro new
  have hshape : ∀ v ∈ sampleForest, fieldProblems v = [] := by decide +kernel
  have hnew : new.IsJson :=
    sample_isIn .text "z" (by simp [Factory.basicField]) (List.forall_mem_nil _)
  have hid : new.getOrNull "id" = .text "z" := by cbv
  have hfree : .text "z" ∉ ids (ofValues sampleForest) := by
    rw [ids_sampleForest]
    simp
  have hfound : find? (.text "b") (ofValues sampleForest) =
      some (ofValue (sample .section "b" [("children", .list [sample .text "c" []])])) := by cbv
  have hlast : find? (.text "f") (ofValues sampleForest) = some (ofValue (sample .text "f" [])) := by
    cbv
  obtain ⟨hinto, hother⟩ :=
    insertChild_undone (sampleForest_isIn .json) hshape nodup_ids_sampleForest
  refine ⟨sampleForest_isIn .json, hshape, nodup_ids_sampleForest, ⟨_, hfound, by cbv⟩, hnew, hid,
    hfree, ?_, hother (.text "f") new fun g hg => ?_⟩
  · rw [← hid] at hfree ⊢
    exact hinto (.text "b") _ new hfound (by cbv) hnew hfree
  · obtain rfl := Option.some.inj (hlast.symm.trans hg)
    cbv

/-- The section that an array repeats is in the tree, and its id is not found there. So a field that
is put into it is not found afterwards. -/
theorem not_inserted_into_repeated_section :
    let new := sample .text "z" []
    (∀ v ∈ sampleForest, v.IsJson) ∧ (∀ v ∈ sampleForest, fieldProblems v = []) ∧
      (ids (ofValues sampleForest)).Nodup ∧
      (∃ g ∈ preorder true (ofValues sampleForest),
        g.id.equals (.text "t") = true ∧ g.isSection = true) ∧
      new.getOrNull "id" = .text "z" ∧ .text "z" ∉ ids (ofValues sampleForest) ∧
      insertChild (.text "t") new (ofValues sampleForest) = sampleForest ∧
      find? (.text "z") (ofValues (insertChild (.text "t") new (ofValues sampleForest))) = none := by
  intro new
  have hlisted : ((preorder true (ofValues sampleForest)).any fun g =>
      g.id.equals (.text "t") && g.isSection) = true := by decide +kernel
  have hmissing : find? (.text "t") (ofValues sampleForest) = none := by cbv
  have hsame : insertChild (.text "t") new (ofValues sampleForest) = sampleForest := by
    rw [insertChild, hmissing, ofValues_eq_map, toValues_map_ofValue]
  refine ⟨sampleForest_isIn .json, by decide +kernel, nodup_ids_sampleForest, ?_, by cbv, ?_, hsame,
    ?_⟩
  · obtain ⟨g, hg, h⟩ := List.any_eq_true.1 hlisted
    exact ⟨g, hg, Bool.and_eq_true_iff.1 h⟩
  · rw [ids_sampleForest]
    simp
  · rw [hsame]
    cbv

end Forest

end FormDesigner
