import FormDesigner.Proofs.Field.Splicing
import FormDesigner.Proofs.Store.Committing

/-!
# Removing a field

A field that is removed takes with it everything that it owns and nothing else. Searching for the
field, listing what it owns and rebuilding the tree without it are three walks over the tree; they
agree because no id occurs twice. The edit goes through unless what is selected cannot be looked up
in a set.
-/

namespace FormDesigner

open Work
open Command (AreSound)
open FormDesigner.Field (ofValue)

/-- All fields in order, templates included, without their children but with all else that they
have. -/
def Forest.attributes (fs : Forest) : List Value := (preorder true fs).map fun f => f.value.bare

theorem Forest.attributes_map (vs : List Value) :
    attributes (vs.map ofValue) = (vs.flatMap Value.owned).map Value.bare := by
  rw [attributes, Value.preorder_eq_flatMap, List.flatMap_map, List.map_flatMap, List.map_flatMap]
  refine List.flatMap_congr fun v _ => ?_
  rw [Value.owned, List.map_map]
  rfl

namespace Store

variable {s t : Store} {id : Value} {f : Field}

/-- A field is gone from a store, with everything that it owns. All other fields are there still, in
the order and with the attributes that they had, and whatever else was selected is selected still. -/
structure Removes (s : Store) (f : Field) (t : Store) : Prop where
  tree : Forest.Spliced f.value [] (Schema.rootFields s.schema) (Schema.rootFields t.schema)
  ids : ∃ before after, Forest.ids s.forest = before ++ Forest.ids [f] ++ after ∧
    Forest.ids t.forest = before ++ after
  gone : ∀ i ∈ Forest.ids [f], i ∉ Forest.ids t.forest
  attributes : ∃ before after,
    Forest.attributes s.forest = before ++ Forest.attributes [f] ++ after ∧
      Forest.attributes t.forest = before ++ after
  deselected : s.selected ∈ Forest.ids [f] → t.selected = .null
  selected : s.selected ∉ Forest.ids [f] → t.selected = s.selected

/-- A store in which a field that is to be removed, and all that it owns, is not selected. -/
def deselecting (s : Store) (f : Field) : Store :=
  if s.selected.among (Forest.ids [f]) then { s with selected := .null } else s

theorem deselecting_becomes (s : Store) (f : Field) :
    s.Becomes s.schema s.history (s.deselecting f) := by
  rw [deselecting]
  split
  · exact ⟨rfl, rfl, rfl, .refl _⟩
  · exact .refl s

theorem CanSave.deselecting (hsave : s.CanSave) : (s.deselecting f).CanSave := by
  rw [Store.deselecting]
  split
  · exact fun g hg => ⟨(hsave g hg).1, .scalar rfl trivial⟩
  · exact hsave

theorem IsSound.among_ids_iff {D : Value.Domain} (hs : s.IsSound D) (hfound : s.find? id = some f)
    {v : Value} : v.among (Forest.ids [f]) = true ↔ v ∈ Forest.ids [f] := by
  obtain ⟨w, -, -, rfl, -, hfits⟩ := hs.find? hfound
  rw [← List.map_singleton, Forest.ids_map, List.flatMap_singleton]
  exact Value.among_iff_of_texts (hfits.gathered_text (.inl rfl))

/-- The field that is found is taken out of one place of the tree. -/
theorem IsSound.removes (hs : s.IsSound .json) (hfound : s.find? id = some f)
    (ht : (s.deselecting f).Commits (Forest.remove id s.forest) t) : s.Removes f t := by
  have hu : (s.deselecting f).IsSound .json :=
    hs.becomes (deselecting_becomes s f) hs.schema hs.snapshots
  have hroots : Schema.rootFields t.schema = Forest.remove id s.forest :=
    hu.rootFields_eq ht.schema
  have hselected := hs.among_ids_iff hfound (v := s.selected)
  obtain ⟨w, hw, hwid, rfl, -, -⟩ := hs.find? hfound
  have hspliced : Forest.Spliced w [] (Schema.rootFields s.schema) (Schema.rootFields t.schema) := by
    rw [hroots, forest_eq]
    exact Forest.remove_spliced hs.fields hs.schema.ids hw hwid
  have hone : Forest.ids [ofValue w] = w.gathered "id" := by
    rw [← List.map_singleton, Forest.ids_map, List.flatMap_singleton]
  obtain ⟨before, after, hbefore, hafter⟩ := hspliced.gathered (n := "id") (by decide)
  rw [List.flatMap_nil, List.append_nil] at hafter
  refine ⟨by rwa [Field.value_ofValue], ⟨before, after, ?_, ?_⟩, ?_, ?_, ?_, ?_⟩
  · rw [forest_eq, Forest.ids_map, hone, hbefore]
  · rw [forest_eq, Forest.ids_map, hafter]
  · intro i hi hit
    have hnodup := hs.schema.ids
    rw [forest_eq, Forest.ids_map, hafter, List.mem_append] at hit
    rw [hbefore, List.append_assoc] at hnodup
    obtain ⟨-, hrest, hleft⟩ := List.nodup_append'.1 hnodup
    obtain ⟨-, -, hright⟩ := List.nodup_append'.1 hrest
    rw [hone] at hi
    rcases hit with hit | hit
    · exact hleft hit (List.mem_append_left _ hi)
    · exact hright hi hit
  · obtain ⟨before, after, hbefore, hafter⟩ := hspliced.owned
    refine ⟨before, after, ?_, ?_⟩
    · rw [forest_eq, Forest.attributes_map, hbefore, ← List.map_singleton, Forest.attributes_map,
        List.flatMap_singleton]
    · rw [forest_eq, Forest.attributes_map, hafter, List.flatMap_nil, List.map_nil, List.append_nil]
  · intro hmem
    rw [ht.selected, deselecting, if_pos (hselected.2 hmem)]
  · intro hmem
    rw [ht.selected, deselecting, if_neg (mt hselected.1 hmem)]

end Store

namespace Editing

variable {s : Store} {id : Value} {f : Field}

theorem ends_deselect {ids : List Value} {Q : Except Failure Unit → Store → Prop} :
    (deselect ids).Ends s Q ↔
      if s.selected.isHashable then
        Q (.ok ()) (if s.selected.among ids then { s with selected := .null } else s)
      else Q (.error .wrongKind) s := by
  unfold deselect
  rw [ends_bind, ends_get, andThen_ok]
  cases s.selected.isHashable with
  | false => exact Iff.rfl
  | true => cases s.selected.among ids <;> exact Iff.rfl

/-- A field is removed once it is not selected. -/
theorem ends_removeField (hfound : s.find? id = some f)
    {Q : Except Failure Outcome → Store → Prop} :
    (removeField id).Ends s Q ↔
      if s.selected.isHashable then
        (commit (Forest.remove id s.forest) "remove_field" id).Ends (s.deselecting f) Q
      else Q (.error .wrongKind) s := by
  unfold removeField
  rw [ends_bind, ends_get, andThen_ok, hfound]
  dsimp only
  rw [ends_bind, ends_deselect]
  exact Iff.rfl

end Editing

/-- A field that is found in a store whose documents JSON can carry can be removed, and nothing else
goes with it than what it owns, unless something is selected that can be no id, such as a list. -/
theorem Store.Reachable.removeField_removes {s : Store} {capacity id : Value} {f : Field}
    (hs : s.Reachable (fun s c => c.Brings .json s) capacity) (hfound : s.find? id = some f) :
    (s.selected.isHashable = true →
      ∃ r t, (Command.removeField id).run.outcome s = (r, t) ∧ s.Removes f t ∧
        (s.CanSave → r = .ok (.outcome (.success "remove_field" id)))) ∧
      (s.selected.isHashable = false →
        (Command.removeField id).run.outcome s = (.error .wrongKind, s)) := by
  have hs := hs.isSound Value.Domain.isClosed_json fun _ _ h => h
  refine ⟨fun hashable => ?_, fun hashable => ?_⟩
  · have hu : (s.deselecting f).IsSound .json :=
      hs.becomes (s.deselecting_becomes f) hs.schema hs.snapshots
    have hsound : AreSound .json (Forest.remove id s.forest) :=
      Command.Rewrites.removeField.areSound hs trivial
    have hrun : (Command.removeField id).run.Ends s fun r t => s.Removes f t ∧
        (s.CanSave → r = .ok (.outcome (.success "remove_field" id))) := by
      refine (ends_map _).2 ((Editing.ends_removeField hfound).2 ?_)
      rw [if_pos hashable]
      refine (Editing.commit_committed hu hsound _ _).mono fun r t h => ?_
      refine ⟨hs.removes hfound h.commits, fun hsave => ?_⟩
      rw [h.answer hsave.deselecting]
      rfl
    exact ⟨_, _, rfl, hrun⟩
  · have hrun : (Command.removeField id).run.Ends s fun r t => r = .error .wrongKind ∧ t = s := by
      refine (ends_map _).2 ((Editing.ends_removeField hfound).2 ?_)
      rw [if_neg (Bool.eq_false_iff.1 hashable)]
      exact ⟨rfl, rfl⟩
    exact Prod.ext hrun.1 hrun.2

/-- A section is removed while a field in it is selected, and nothing is selected then. -/
theorem Store.removeField_with_child_selected :
    let s := Store.bare.after
      [.addField (.sectionField "a" [.textField "b"]), .select (.text "b")]
    ∃ f t, s.find? (.text "a") = some f ∧
      (Command.removeField (.text "a")).run.outcome s =
        (.ok (.outcome (.success "remove_field" (.text "a"))), t) ∧
      s.Removes f t ∧ s.selected.isNull = false ∧ t.selected = .null := by
  intro s
  have edited : s.Reachable (fun s c => c.Brings .json s) (.int 2) := by
    refine Store.reachable_of_brings ?_
    simp only [List.forall_mem_cons]
    refine ⟨fun _ => Value.sectionField_isIn "a" ?_, fun _ => trivial, List.forall_mem_nil _⟩
    exact List.forall_mem_singleton.2 (Value.textField_isIn "b")
  have hsound := edited.isSound Value.Domain.isClosed_json fun _ _ h => h
  have hselected : ((s.find? (.text "a")).map fun f => s.selected.among (Forest.ids [f])) =
      some true := by decide +kernel
  have hsave : s.CanSave := Store.canSave_of_no_storage (by decide +kernel)
  obtain ⟨f, hfound, hamong⟩ := Option.map_eq_some_iff.1 hselected
  obtain ⟨r, t, hrun, hremoves, hr⟩ :=
    (Store.Reachable.removeField_removes edited hfound).1 (by decide +kernel)
  refine ⟨f, t, hfound, hr hsave ▸ hrun, hremoves, by decide +kernel, hremoves.deselected ?_⟩
  exact (hsound.among_ids_iff hfound).1 hamong

/-- A field that stands in the schema cannot be removed while a list is selected. -/
theorem Store.not_removed_with_list_selected :
    let s := Store.bare.after [.addField (.textField "a"), .select (.list [])]
    s.Reachable (fun s c => c.Brings .json s) (.int 2) ∧
      (s.find? (.text "a")).isSome = true ∧
      ∀ o, ((Command.removeField (.text "a")).run.outcome s).1 ≠ .ok (.outcome o) := by
  intro s
  have hsome : (s.find? (.text "a")).isSome = true := by decide +kernel
  have hselected : s.selected.isHashable = false := by decide +kernel
  obtain ⟨f, hfound⟩ := Option.isSome_iff_exists.1 hsome
  have hrun : (Command.removeField (.text "a")).run.Ends s fun r _ => r = .error .wrongKind := by
    refine (ends_map _).2 ((Editing.ends_removeField hfound).2 ?_)
    rw [if_neg (Bool.eq_false_iff.1 hselected)]
    rfl
  refine ⟨Store.reachable_of_brings ?_, hsome, fun o ho => ?_⟩
  · simp only [List.forall_mem_cons]
    exact ⟨fun _ => Value.textField_isIn "a", fun _ => trivial, List.forall_mem_nil _⟩
  · cases hrun.symm.trans ho

end FormDesigner
