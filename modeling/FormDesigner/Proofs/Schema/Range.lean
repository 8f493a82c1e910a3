import FormDesigner.Proofs.Schema.Document

/-!
# Bounds of values

The bounds of a field are reversed if its least value exceeds its greatest. The check of shapes lets
such fields pass, and so do all edits; only when a schema is loaded are they rejected. The text of a
sound schema is therefore loaded again exactly if no field in its tree has reversed bounds.
-/

namespace FormDesigner

open Value (IsIn IsJson Domain Fits)
open FormDesigner.Field (ofValue)

namespace Value

variable {v : Value} {D : Domain}

/-- The least value of a field exceeds its greatest. -/
def isReversed (v : Value) : Bool :=
  let rules := v.getOrNull "validation"
  match (rules.getOrNull "min").asQuantity?, (rules.getOrNull "max").asQuantity? with
  | some low, some high => high.lt low
  | _, _ => false

theorem asQuantity?_image (hv : v.IsJson) (sorted : Bool) :
    (Json.image sorted v).asQuantity? = v.asQuantity? := by
  cases v with
  | float x =>
      cases x with
      | nan a =>
          have node := hv.node_of_scalar rfl
          simp [Domain.json, IsJsonScalar, Binary64.isFinite] at node
      | _ => rfl
  | list | tuple | set | map => simp [Json.image, asQuantity?]
  | _ => rfl

theorem isReversed_image (hv : v.IsJson) (sorted : Bool) :
    (Json.image sorted v).isReversed = v.isReversed := by
  have hrules : (v.getOrNull "validation").IsJson := hv.getOrNull trivial
  unfold isReversed
  dsimp only
  rw [getOrNull_image hv, getOrNull_image hrules, getOrNull_image hrules,
    asQuantity?_image (hrules.getOrNull trivial), asQuantity?_image (hrules.getOrNull trivial)]

/-- Quantities that JSON can carry can be shown. -/
theorem exists_plain_of_asQuantity? (hv : v.IsJson) {q : Number} (hq : v.asQuantity? = some q) :
    ∃ text, v.plain = .ok text := by
  cases v with
  | bool b => exact ⟨_, rfl⟩
  | float x => exact ⟨_, rfl⟩
  | int n =>
      obtain ⟨text, htext⟩ := Option.isSome_iff_exists.1
        (show (integerText? n).isSome = true from hv.node_of_scalar rfl)
      refine ⟨text, ?_⟩
      simp only [plain, plain?, quoted?, htext]
  | _ => cases hq

end Value

namespace Schema

variable {f : Field} {schema : Value}

theorem rangeProblem_eq_none_iff : rangeProblem f = .ok none ↔ f.value.isReversed = false := by
  unfold rangeProblem Value.isReversed Field.get
  dsimp only
  cases ((f.value.getOrNull "validation").getOrNull "min").asQuantity? with
  | none => exact ⟨fun _ => rfl, fun _ => rfl⟩
  | some low =>
      cases ((f.value.getOrNull "validation").getOrNull "max").asQuantity? with
      | none => exact ⟨fun _ => rfl, fun _ => rfl⟩
      | some high =>
          dsimp only
          cases high.lt low with
          | false => exact ⟨fun _ => rfl, fun _ => rfl⟩
          | true =>
              simp only [if_true]
              refine ⟨fun h => ?_, fun h => by cases h⟩
              obtain ⟨_, -, h⟩ := Result.bind_eq_ok.1 h
              obtain ⟨_, -, h⟩ := Result.bind_eq_ok.1 h
              obtain ⟨_, -, h⟩ := Result.bind_eq_ok.1 h
              cases h

/-- What is wrong with the bounds of a field that JSON can carry can be said. -/
theorem exists_rangeProblem (hf : f.value.IsJson) (hkey : ∃ s, f.key = .text s) :
    ∃ r, rangeProblem f = .ok r := by
  obtain ⟨key, hkey⟩ := hkey
  have hrules : (f.get "validation").IsJson := hf.getOrNull trivial
  unfold rangeProblem
  dsimp only
  split
  · rename_i low high hlow hhigh
    split
    · obtain ⟨lowText, hlow⟩ := Value.exists_plain_of_asQuantity? (hrules.getOrNull trivial) hlow
      obtain ⟨highText, hhigh⟩ := Value.exists_plain_of_asQuantity? (hrules.getOrNull trivial) hhigh
      rw [hkey, hlow, hhigh]
      exact ⟨_, rfl⟩
    · exact ⟨_, rfl⟩
  · exact ⟨_, rfl⟩

/-- No field in the tree of a schema has reversed bounds. -/
def InRange (schema : Value) : Prop :=
  ∀ f ∈ Forest.preorder true (forest schema), f.value.isReversed = false

instance (schema : Value) : Decidable (InRange schema) :=
  inferInstanceAs
    (Decidable (∀ f ∈ Forest.preorder true (forest schema), f.value.isReversed = false))

theorem inRange_iff : InRange schema ↔
    ∀ w ∈ (rootFields schema).flatMap Value.owned, w.isReversed = false := by
  rw [InRange, forest_eq, ← Forest.preorder_map, List.forall_mem_map]

theorem inRange_image (hschema : schema.IsJson) (sorted : Bool) :
    InRange (Json.image sorted schema) ↔ InRange schema := by
  have howned : (rootFields (Json.image sorted schema)).flatMap Value.owned =
      ((rootFields schema).flatMap Value.owned).map (Json.image sorted) := by
    rw [rootFields_image hschema, List.flatMap_map, List.map_flatMap]
    exact List.flatMap_congr fun x hx => Value.owned_image (isIn_rootFields hschema x hx) sorted
  rw [inRange_iff, inRange_iff, howned, List.forall_mem_map]
  refine forall₂_congr fun w hw => ?_
  obtain ⟨x, hx, hw⟩ := List.mem_flatMap.1 hw
  rw [Value.isReversed_image ((isIn_rootFields hschema x hx).owned w hw)]

/-- The problems of a sound schema can be said. -/
theorem IsSound.exists_problems (h : IsSound .json schema) :
    ∃ found, problems schema = .ok found := by
  have hranges : ∀ f ∈ Forest.preorder true (forest schema), ∃ r, rangeProblem f = .ok r := by
    intro f hf
    refine exists_rangeProblem ?_ ?_
    · have hmem : f.value ∈ (rootFields schema).flatMap Value.owned := by
        rw [← Forest.preorder_map, ← forest_eq]
        exact List.mem_map_of_mem hf
      obtain ⟨x, hx, hmem⟩ := List.mem_flatMap.1 hmem
      exact (isIn_rootFields h.isIn x hx).owned _ hmem
    · have hmem : f.key ∈ (rootFields schema).flatMap (Value.gathered "key") := by
        rw [← keys_forest]
        exact List.mem_map_of_mem hf
      exact gathered_text h.shape (.inr rfl) _ hmem
  have hids : duplicates (Forest.ids (forest schema)) = [] := by
    rw [ids_forest, duplicates_eq_nil_iff (gathered_text h.shape (.inl rfl))]
    exact h.ids
  have hkeys : duplicates (Forest.keys (forest schema)) = [] := by
    rw [keys_forest, duplicates_eq_nil_iff (gathered_text h.shape (.inr rfl))]
    exact h.keys
  obtain ⟨ranges, hranges, -⟩ := Result.exists_mapM fun f hf =>
    (hranges f hf).imp fun _ hr => ⟨hr, trivial⟩
  refine ⟨[] ++ [] ++ ranges.filterMap id, ?_⟩
  unfold problems
  refine Result.bind_eq_ok.2 ⟨[], schemaProblems_eq_nil_iff.2 h.shape, ?_⟩
  refine Result.bind_eq_ok.2 ⟨[], by rw [hids]; rfl, ?_⟩
  refine Result.bind_eq_ok.2 ⟨[], by rw [hkeys]; rfl, ?_⟩
  exact Result.bind_eq_ok.2 ⟨ranges, hranges, rfl⟩

/-- A sound schema is valid exactly if no bounds are reversed in it. -/
theorem IsSound.valid_iff {D : Value.Domain} (h : IsSound D schema) :
    problems schema = .ok [] ↔ InRange schema := by
  rw [problems_eq_nil_iff]
  refine ⟨fun hp f hf => rangeProblem_eq_none_iff.1 (hp.2.2.2 f hf), fun hp => ?_⟩
  exact ⟨h.shape, h.ids, h.keys, fun f hf => rangeProblem_eq_none_iff.2 (hp f hf)⟩

/-- The text of a sound schema is loaded as the schema, with its members in order, if no bounds are
reversed in it. Otherwise it is rejected. -/
theorem IsSound.load_exportText (h : IsSound .json schema) {text : String}
    (htext : exportText schema = .ok text) :
    (InRange schema → load (.text text) = .ok schema.sortKeys) ∧
      (¬ InRange schema → ∃ found, load (.text text) = .error (.rejected found none)) := by
  have himage : Json.image true schema = schema.sortKeys := Json.image_eq_sortKeys h.isIn
  have hparse : parse (.text text) = .ok schema.sortKeys := by
    change parseText text = _
    rw [parseText, Json.read_write h.textKeyed htext]
    exact congrArg Except.ok himage
  have hsound : IsSound .json schema.sortKeys :=
    himage ▸ h.image true fun _ hnan => by cases hnan
  have hrange : InRange schema.sortKeys ↔ InRange schema := himage ▸ inRange_image h.isIn true
  have hproblems : problems schema.sortKeys = .ok [] ↔ InRange schema :=
    hsound.valid_iff.trans hrange
  refine ⟨fun hp => load_eq_ok_iff.2 ⟨hparse, hproblems.2 hp⟩, fun hp => ?_⟩
  obtain ⟨found, hfound⟩ := hsound.exists_problems
  refine ⟨found, ?_⟩
  have hne : found ≠ [] := by
    rintro rfl
    exact hp (hproblems.1 hfound)
  unfold load accept
  rw [hparse]
  change (do
    let found ← problems schema.sortKeys
    if found.isEmpty then return schema.sortKeys else .error (.rejected found none)) = _
  rw [hfound]
  change (if found.isEmpty then _ else _) = _
  rw [if_neg (mt List.isEmpty_iff.1 hne)]

end Schema

end FormDesigner
