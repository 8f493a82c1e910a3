import Mathlib
import FormDesigner.Proofs.Schema.Outline

/-!
# Where a field stands

A field can be searched for depth first, or by looking through all siblings before anything below
them, which also tells its owner and its position. Where no id occurs twice, a field has one owner
and one position. So the two searches find the same field, and the place that one of them tells is
the only one where that field stands.
-/

namespace FormDesigner

namespace Forest

open Value (Fits gathered nodes owned owned_induction)
open FormDesigner.Field (ofValue)
open Schema (Located outline)

variable {id c v w : Value} {vs : List Value} {i : Nat} {p : Field} {a b : Place}

/-! ### Places -/

/-- Every field that a forest owns is the view of a value. -/
theorem eq_ofValue_of_mem_preorderOf {f : Field} (hf : f ∈ preorderOf true (ofValue v)) :
    f = ofValue f.value := by
  induction v using owned_induction with
  | node v ihChildren ihTemplate =>
      rw [Field.ofValue_eq, preorderOf, if_pos rfl, ← Field.ofValue_eq] at hf
      rcases List.mem_append.1 hf with hf | hf
      · rcases List.mem_cons.1 hf with rfl | hf
        · rw [Field.value_ofValue]
        · rw [Value.preorder_eq_flatMap, List.flatMap_map] at hf
          obtain ⟨d, hd, hf⟩ := List.mem_flatMap.1 hf
          exact ihChildren d hd hf
      · cases ht : v.templateValue? with
        | none =>
            rw [ht] at hf
            cases hf
        | some t =>
            rw [ht, Option.map_some, Field.ofValue_eq, preorderTemplate, ← Field.ofValue_eq] at hf
            split at hf
            · exact ihTemplate t ht hf
            · cases hf

theorem mem_preorder_iff : p ∈ preorder true (vs.map ofValue) ↔
    ∃ w ∈ vs.flatMap owned, p = ofValue w := by
  have hview : ∀ f ∈ preorder true (vs.map ofValue), f = ofValue f.value := by
    intro f hf
    rw [Value.preorder_eq_flatMap, List.flatMap_map] at hf
    obtain ⟨v, -, hf⟩ := List.mem_flatMap.1 hf
    exact eq_ofValue_of_mem_preorderOf hf
  rw [← preorder_map]
  constructor
  · intro hp
    exact ⟨p.value, List.mem_map_of_mem hp, hview p hp⟩
  · rintro ⟨w, hw, rfl⟩
    obtain ⟨f, hf, rfl⟩ := List.mem_map.1 hw
    exact hview f hf ▸ hf

/-- A value stands at a place of a forest: among the roots, or among the children of a section that
the forest owns. -/
def Place.Holds (vs : List Value) (c : Value) : Place → Prop
  | .nowhere => False
  | .root i => vs[i]? = some c
  | .inside p i => ∃ w ∈ vs.flatMap owned, p = ofValue w ∧ w.childValues[i]? = some c

/-- A value with the owner and the position that a place gives it. -/
def Place.located (c : Value) : Place → Located
  | .nowhere => ⟨c, .null, 0⟩
  | .root i => ⟨c, .null, i⟩
  | .inside p i => ⟨c, p.id, i⟩

/-- Whatever stands at a place is listed so in the outline. -/
theorem Place.Holds.located_mem (h : a.Holds vs c) : a.located c ∈ outline vs := by
  cases a with
  | nowhere => exact h.elim
  | root i => exact Schema.mem_outlineFrom_of_getElem? h
  | inside p i =>
      obtain ⟨w, hw, rfl, hchild⟩ := h
      rw [← Schema.map_field_outlineFrom .null 0] at hw
      obtain ⟨m, hm, rfl⟩ := List.mem_map.1 hw
      have hid : (ofValue m.field).id = m.id := by
        rw [Field.id, Field.get, Field.value_ofValue]
        rfl
      have hbranch : m.field.branches[i]? = some c := by
        obtain ⟨hi, -⟩ := List.getElem?_eq_some_iff.1 hchild
        rw [Value.branches, List.getElem?_append_left hi, hchild]
      exact Schema.mem_outlineFrom_iff.2 (.inr ⟨m, hm, hid, hbranch⟩)

/-- Where ids differ, only one value that the forest owns has an id. -/
theorem eq_of_mem_owned (hids : (vs.flatMap (gathered "id")).Nodup) (hv : v ∈ vs.flatMap owned)
    (hw : w ∈ vs.flatMap owned) (h : v.getOrNull "id" = w.getOrNull "id") : v = w := by
  have hnodup : ((vs.flatMap owned).map fun w => w.getOrNull "id").Nodup := by
    rwa [List.map_flatMap]
  exact List.inj_on_of_nodup_map hnodup hv hw h

/-- So a value does not stand at two places. -/
theorem Place.Holds.unique (hfits : ∀ v ∈ vs, v.Fits) (hids : (vs.flatMap (gathered "id")).Nodup)
    (ha : a.Holds vs c) (hb : b.Holds vs c) : a = b := by
  have hnodup : ((outline vs).map Located.id).Nodup := by
    rwa [outline, Schema.map_id_outlineFrom]
  have hid : (a.located c).id = (b.located c).id := by cases a <;> cases b <;> rfl
  have heq : a.located c = b.located c :=
    List.inj_on_of_nodup_map hnodup ha.located_mem hb.located_mem hid
  have howner : ∀ w ∈ vs.flatMap owned, (ofValue w).id ≠ .null := by
    intro w hw hnull
    obtain ⟨v, hv, hwv⟩ := List.mem_flatMap.1 hw
    obtain ⟨s, -, hs⟩ := ((hfits v hv).owned w hwv).id
    rw [Field.id, Field.get, Field.value_ofValue, hs] at hnull
    cases hnull
  -- The outline tells a root by its owner, which is null, from what stands in a section.
  cases a with
  | nowhere => exact ha.elim
  | root i =>
      cases b with
      | nowhere => exact hb.elim
      | root j => exact congrArg Place.root (congrArg Located.position heq)
      | inside q j =>
          obtain ⟨w, hw, rfl, -⟩ := hb
          exact absurd (congrArg Located.owner heq).symm (howner w hw)
  | inside p i =>
      cases b with
      | nowhere => exact hb.elim
      | root j =>
          obtain ⟨w, hw, rfl, -⟩ := ha
          exact absurd (congrArg Located.owner heq) (howner w hw)
      | inside q j =>
          obtain ⟨w, hw, rfl, -⟩ := ha
          obtain ⟨u, hu, rfl, -⟩ := hb
          have hposition : i = j := congrArg Located.position heq
          have hsame : (ofValue w).id = (ofValue u).id := congrArg Located.owner heq
          rw [Field.id, Field.id, Field.get, Field.get, Field.value_ofValue,
            Field.value_ofValue] at hsame
          rw [eq_of_mem_owned hids hw hu hsame, hposition]

/-! ### The search for a place -/

theorem position?_map (id : Value) (vs : List Value) :
    position? id (vs.map ofValue) = vs.findIdx? (hasId id) := by
  rw [position?, List.findIdx?_map]
  refine congrArg (vs.findIdx? ·) (funext fun v => ?_)
  rw [Function.comp_apply, Field.id, Field.get, Field.value_ofValue, hasId]

theorem exists_of_position? (h : position? id (vs.map ofValue) = some i) :
    ∃ c, vs[i]? = some c ∧ hasId id c = true := by
  rw [position?_map] at h
  obtain ⟨hi, hid, -⟩ := List.findIdx?_eq_some_iff_getElem.1 h
  exact ⟨vs[i], List.getElem?_eq_getElem hi, hid⟩

theorem position?_eq_none_iff :
    position? id (vs.map ofValue) = none ↔ ∀ v ∈ vs, hasId id v = false := by
  rw [position?_map, List.findIdx?_eq_none_iff]

theorem ownerIn?_ofValue (id v : Value) : ownerIn? id (ofValue v) =
    match position? id (v.childValues.map ofValue) with
    | some i => some (ofValue v, i)
    | none => owner? id (v.childValues.map ofValue) := by
  rw [Field.ofValue_eq]
  exact (ownerIn?.eq_def id _).trans rfl

theorem exists_of_owner? {o : Field × Nat} (h : owner? id (vs.map ofValue) = some o) :
    ∃ v ∈ vs, ownerIn? id (ofValue v) = some o := by
  induction vs with
  | nil => cases h
  | cons v vs ih =>
      rw [List.map_cons, owner?] at h
      cases hv : ownerIn? id (ofValue v) with
      | some o' =>
          rw [hv] at h
          exact ⟨v, .head _, hv.trans h⟩
      | none =>
          rw [hv] at h
          obtain ⟨u, hu, hfound⟩ := ih h
          exact ⟨u, .tail _ hu, hfound⟩

theorem owner?_eq_none_iff :
    owner? id (vs.map ofValue) = none ↔ ∀ v ∈ vs, ownerIn? id (ofValue v) = none := by
  induction vs with
  | nil => simp [owner?]
  | cons v vs ih =>
      rw [List.map_cons, owner?, List.forall_mem_cons, ← ih]
      cases ownerIn? id (ofValue v) <;> simp

/-- The owner that is told has a child with the id at the position that is told. -/
theorem exists_of_ownerIn? (h : ownerIn? id (ofValue v) = some (p, i)) :
    ∃ w ∈ v.nodes, p = ofValue w ∧ ∃ c, w.childValues[i]? = some c ∧ hasId id c = true := by
  induction v using owned_induction with
  | node v ih _ =>
      rw [ownerIn?_ofValue] at h
      split at h
      · rename_i j hposition
        obtain ⟨rfl, rfl⟩ := Prod.mk.inj (Option.some.inj h)
        exact ⟨v, Value.mem_nodes_self v, rfl, exists_of_position? hposition⟩
      · obtain ⟨d, hd, hfound⟩ := exists_of_owner? h
        obtain ⟨w, hw, hchild⟩ := ih d hd hfound
        rw [Value.nodes_eq]
        exact ⟨w, .tail _ (List.mem_flatMap.2 ⟨d, hd, hw⟩), hchild⟩

/-- Where no owner is told, nothing below the field has the id. -/
theorem hasId_of_ownerIn?_eq_none (h : ownerIn? id (ofValue v) = none) :
    ∀ w ∈ v.childValues.flatMap nodes, hasId id w = false := by
  induction v using owned_induction with
  | node v ih _ =>
      rw [ownerIn?_ofValue] at h
      split at h
      · cases h
      · rename_i hposition
        intro w hw
        obtain ⟨d, hd, hw⟩ := List.mem_flatMap.1 hw
        rw [Value.nodes_eq] at hw
        rcases List.mem_cons.1 hw with rfl | hw
        · exact position?_eq_none_iff.1 hposition w hd
        · exact ih d hd (owner?_eq_none_iff.1 h d hd) w hw

theorem mem_nodes_of_getElem? (hw : w ∈ v.nodes) (hc : w.childValues[i]? = some c) :
    c ∈ v.nodes := by
  induction v using owned_induction with
  | node v ih _ =>
      rw [Value.nodes_eq] at hw ⊢
      refine .tail _ ?_
      rcases List.mem_cons.1 hw with rfl | hw
      · exact List.mem_flatMap.2 ⟨c, List.mem_of_getElem? hc, Value.mem_nodes_self c⟩
      · obtain ⟨d, hd, hw⟩ := List.mem_flatMap.1 hw
        exact List.mem_flatMap.2 ⟨d, hd, ih d hd hw⟩

/-- Either no field has the id, or one that has it stands at the place that is told. -/
theorem place_cases (id : Value) (vs : List Value) :
    (place id (vs.map ofValue) = .nowhere ∧ ∀ w ∈ vs.flatMap nodes, hasId id w = false) ∨
      ∃ c ∈ vs.flatMap nodes, hasId id c = true ∧ (place id (vs.map ofValue)).Holds vs c := by
  unfold Forest.place
  split
  · rename_i i hposition
    obtain ⟨c, hc, hid⟩ := exists_of_position? hposition
    refine .inr ⟨c, ?_, hid, hc⟩
    exact List.mem_flatMap.2 ⟨c, List.mem_of_getElem? hc, Value.mem_nodes_self c⟩
  · rename_i hposition
    split
    · rename_i f i howner
      obtain ⟨v, hv, hfound⟩ := exists_of_owner? howner
      obtain ⟨w, hw, rfl, c, hc, hid⟩ := exists_of_ownerIn? hfound
      refine .inr ⟨c, List.mem_flatMap.2 ⟨v, hv, mem_nodes_of_getElem? hw hc⟩, hid, w, ?_, rfl, hc⟩
      exact List.mem_flatMap.2 ⟨v, hv, (Value.nodes_sublist_owned v).subset hw⟩
    · rename_i howner
      refine .inl ⟨rfl, fun w hw => ?_⟩
      obtain ⟨v, hv, hw⟩ := List.mem_flatMap.1 hw
      rw [Value.nodes_eq] at hw
      rcases List.mem_cons.1 hw with rfl | hw
      · exact position?_eq_none_iff.1 hposition w hv
      · exact hasId_of_ownerIn?_eq_none (owner?_eq_none_iff.1 howner v hv) w hw

theorem find?_eq_none_iff :
    find? id (vs.map ofValue) = none ↔ ∀ w ∈ vs.flatMap nodes, hasId id w = false := by
  rw [find?_map, Option.map_eq_none_iff, List.find?_eq_none]
  simp only [Bool.not_eq_true]

/-- A field whose id is also its key and its label. -/
def sample (type : FieldType) (name : String) (more : List (String × Value)) : Value :=
  .ofFields (Factory.basicField name name type.name (.text name) ++ more)

/-- A section in a section, an array that repeats a section, and a field that comes last. -/
def sampleForest : List Value :=
  let inner := sample .section "b" [("children", .list [sample .text "c" []])]
  let repeated := sample .section "t" [("children", .list [sample .text "e" []])]
  [sample .section "a" [("children", .list [inner])], sample .array "d" [("of", repeated)],
    sample .text "f" []]

theorem ids_sampleForest :
    ids (ofValues sampleForest) = ["a", "b", "c", "d", "t", "e", "f"].map .text := by cbv

theorem nodup_ids_sampleForest : (ids (ofValues sampleForest)).Nodup := by
  rw [ids_sampleForest]
  exact List.Nodup.map (fun _ _ => Value.text.inj) (by decide)

/-- In a forest of well-shaped fields without two of one id, the search for a place and the search
for a field agree. There is a place exactly if the field is found; it is a position among the roots
exactly if the root there is the field that is found, and a position in a section of the forest
exactly if the child there is. -/
theorem place_agrees (hshape : ∀ v ∈ vs, fieldProblems v = []) (hids : (ids (ofValues vs)).Nodup)
    (id : Value) :
    (place id (ofValues vs) = .nowhere ↔ find? id (ofValues vs) = none) ∧
    (∀ i, place id (ofValues vs) = .root i ↔
      ∃ f, (ofValues vs)[i]? = some f ∧ find? id (ofValues vs) = some f) ∧
    ∀ p i, place id (ofValues vs) = .inside p i ↔
      (p ∈ preorder true (ofValues vs) ∧ p.isSection = true) ∧
        ∃ f, p.children[i]? = some f ∧ find? id (ofValues vs) = some f := by
  have hfits : ∀ v ∈ vs, v.Fits := fun v hv => fieldProblems_eq_nil_iff.1 (hshape v hv)
  rw [ofValues_eq_map] at hids ⊢
  rw [ids_map] at hids
  rcases place_cases id vs with ⟨hplace, hnone⟩ | ⟨c, hc, hid, hholds⟩
  · rw [hplace, find?_eq_none_iff.2 hnone]
    simp
  · have hfind := find?_of_hasId hfits hids hc hid
    have hunique : ∀ {other : Place}, other.Holds vs c → place id (vs.map ofValue) = other :=
      fun h => hholds.unique hfits hids h
    rw [hfind]
    refine ⟨?_, fun i => ?_, fun p i => ?_⟩
    · constructor
      · intro hplace
        rw [hplace] at hholds
        exact hholds.elim
      · intro h
        cases h
    · constructor
      · intro hplace
        rw [hplace] at hholds
        have hroot : vs[i]? = some c := hholds
        exact ⟨ofValue c, by rw [List.getElem?_map, hroot, Option.map_some], rfl⟩
      · rintro ⟨f, hroot, hf⟩
        obtain rfl := Option.some.inj hf
        apply hunique
        rw [List.getElem?_map] at hroot
        obtain ⟨d, hd, hview⟩ := Option.map_eq_some_iff.1 hroot
        exact Field.ofValue_injective hview ▸ hd
    · constructor
      · intro hplace
        rw [hplace] at hholds
        obtain ⟨w, hw, rfl, hchild⟩ := hholds
        have hsection : w.isSection = true :=
          (Value.mem_childValues (List.mem_of_getElem? hchild)).1
        refine ⟨⟨mem_preorder_iff.2 ⟨w, hw, rfl⟩, ?_⟩, ofValue c, ?_, rfl⟩
        · rwa [Field.isSection, Field.value_ofValue]
        · rw [Field.children_ofValue, List.getElem?_map, hchild, Option.map_some]
      · rintro ⟨⟨hp, -⟩, f, hchild, hf⟩
        obtain rfl := Option.some.inj hf
        obtain ⟨w, hw, rfl⟩ := mem_preorder_iff.1 hp
        apply hunique
        rw [Field.children_ofValue, List.getElem?_map] at hchild
        obtain ⟨d, hd, hview⟩ := Option.map_eq_some_iff.1 hchild
        exact ⟨w, hw, rfl, Field.ofValue_injective hview ▸ hd⟩

/-- A field in the inner section is found there and the last field at the root. What an array repeats
is not found, and has no place. -/
theorem place_in_sampleForest :
    (∀ v ∈ sampleForest, fieldProblems v = []) ∧ (ids (ofValues sampleForest)).Nodup ∧
      (∃ p, place (.text "c") (ofValues sampleForest) = .inside p 0 ∧ p.isSection = true ∧
        ∃ f, p.children[0]? = some f ∧ find? (.text "c") (ofValues sampleForest) = some f) ∧
      place (.text "e") (ofValues sampleForest) = .nowhere ∧
      place (.text "f") (ofValues sampleForest) = .root 2 := by
  have hshape : ∀ v ∈ sampleForest, fieldProblems v = [] := by decide +kernel
  have hagrees := place_agrees hshape nodup_ids_sampleForest
  refine ⟨hshape, nodup_ids_sampleForest, ⟨_, by cbv, ?_⟩, ?_, ?_⟩
  · obtain ⟨⟨-, hsection⟩, hchild⟩ := ((hagrees (.text "c")).2.2 _ 0).1 (by cbv)
    exact ⟨hsection, hchild⟩
  · apply (hagrees (.text "e")).1.2
    cbv
  · apply ((hagrees (.text "f")).2.1 2).2
    exact ⟨ofValue (sample .text "f" []), by cbv, by cbv⟩

end Forest

end FormDesigner
