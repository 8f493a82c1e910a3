import FormDesigner.Proofs.Field.Tree
import FormDesigner.Proofs.Json.Reader
import FormDesigner.Proofs.Json.RoundTrip
import FormDesigner.Proofs.Yaml.Reader
import FormDesigner.Schema.Source

/-!
# Sound schemas

A schema is sound if it has the right shape and no id and no key occurs twice in it, templates
included. Schemas that are accepted are sound, other fields that fit and have ids and keys of their
own make a sound schema again, and what JSON keeps of a sound schema is sound.
-/

namespace FormDesigner

namespace Schema

open Value (IsIn IsProper Domain Fits gathered)
open FormDesigner.Field (ofValue)

variable {D : Domain} {v w : Value} {es : Entries} {xs : List Value} {n : String}

/-- The fields at the root of a schema. -/
def rootFields (schema : Value) : List Value :=
  (Shape.itemsOf? (schema.getOrNull "fields")).getD []

theorem forest_eq (schema : Value) : forest schema = (rootFields schema).map ofValue := by
  rw [forest, Field.itemsOf_eq_map, rootFields]

theorem ids_forest (schema : Value) :
    Forest.ids (forest schema) = (rootFields schema).flatMap (gathered "id") := by
  rw [forest_eq, Forest.ids_map]

theorem keys_forest (schema : Value) :
    Forest.keys (forest schema) = (rootFields schema).flatMap (gathered "key") := by
  rw [forest_eq, Forest.keys_map]

/-! ### Shape -/

/-- What the check of shapes asks of a schema. -/
structure HasShape (schema : Value) : Prop where
  isMap : schema.isMap = true
  version : schema.getOrNull "version" = .int 1
  hasVersion : ∃ v, schema.get? "version" = some v
  fields : ∃ list xs, schema.get? "fields" = some list ∧ Shape.itemsOf? list = some xs
  known : ∀ e ∈ schema.entriesOf, e.1 = .text "version" ∨ e.1 = .text "fields"
  fits : ∀ x ∈ rootFields schema, x.Fits

theorem HasShape.fields_eq (h : HasShape v) :
    Shape.itemsOf? (v.getOrNull "fields") = some (rootFields v) := by
  obtain ⟨list, xs, hlist, hxs⟩ := h.fields
  rw [rootFields, Value.getOrNull, hlist, Option.getD_some, hxs, Option.getD_some]

/-- What is wrong with the fields of a schema. -/
private def fieldsProblems (v : Value) : List Problem :=
  if (Shape.itemsOf? v).isSome then Shape.ofChildren 0 (Field.itemsOf v)
  else Shape.here "Input should be a valid list"

private theorem fieldsProblems_eq_nil_iff :
    fieldsProblems v = [] ↔ ∃ xs, Shape.itemsOf? v = some xs ∧ ∀ x ∈ xs, x.Fits := by
  unfold fieldsProblems
  cases hxs : Shape.itemsOf? v with
  | none => simp [Shape.here_ne_nil]
  | some xs =>
      have hfits : Shape.ofChildren 0 (Field.itemsOf v) = [] ↔ ∀ x ∈ xs, x.Fits := by
        rw [Field.itemsOf_eq_map, hxs, Option.getD_some, Value.ofChildren_eq_nil_iff,
          List.forall_mem_map]
        exact forall₂_congr fun x _ => Value.fits_iff.symm
      rw [Option.isSome_some, if_pos rfl, hfits]
      constructor
      · intro h
        exact ⟨xs, rfl, h⟩
      · rintro ⟨ys, h, hys⟩
        exact Option.some.inj h ▸ hys

/-- The attributes that a schema has. -/
private def declared : List Shape.Attribute :=
  [⟨"version", true, fun _ => []⟩, ⟨"fields", true, fieldsProblems⟩]

private theorem attributes_declared_iff : Shape.attributes declared es = [] ↔
    (∀ e ∈ es, e.1 = .text "version" ∨ e.1 = .text "fields") ∧
      (∃ v, Entries.get? es (.text "version") = some v) ∧
        ∃ list xs, Entries.get? es (.text "fields") = some list ∧
          Shape.itemsOf? list = some xs ∧ ∀ x ∈ xs, x.Fits := by
  rw [Shape.attributes_eq_nil_iff]
  simp only [declared, List.mem_cons, List.not_mem_nil, or_false, exists_eq_or_imp, exists_eq_left,
    forall_eq_or_imp, forall_eq, fieldsProblems_eq_nil_iff]
  constructor
  · rintro ⟨known, ⟨hversion, hfields⟩, -, valid⟩
    obtain ⟨list, hlist⟩ := hfields trivial
    obtain ⟨xs, hxs, hfits⟩ := valid list hlist
    exact ⟨known, hversion trivial, list, xs, hlist, hxs, hfits⟩
  · rintro ⟨known, hversion, list, xs, hlist, hxs, hfits⟩
    refine ⟨known, ⟨fun _ => hversion, fun _ => ⟨list, hlist⟩⟩, fun _ _ => trivial, fun w hw => ?_⟩
    obtain rfl := Option.some.inj (hw.symm.trans hlist)
    exact ⟨xs, hxs, hfits⟩

private theorem schemaProblems_map
    (hversion : (Entries.get? es (.text "version")).getD .null = .int 1) :
    schemaProblems (.map es) = .ok (Shape.attributes declared es) := by
  unfold schemaProblems
  dsimp only
  rw [hversion]
  rfl

private theorem version_of_schemaProblems (h : schemaProblems (.map es) = .ok []) :
    (Entries.get? es (.text "version")).getD .null = .int 1 := by
  unfold schemaProblems at h
  dsimp only at h
  split at h
  · assumption
  · obtain ⟨shown, -, h⟩ := Result.bind_eq_ok.1 h
    exact absurd (Except.ok.inj h) Shape.here_ne_nil

theorem schemaProblems_eq_nil_iff : schemaProblems v = .ok [] ↔ HasShape v := by
  cases v with
  | map es =>
      have hroot {list : Value} {xs : List Value}
          (hlist : Entries.get? es (.text "fields") = some list)
          (hxs : Shape.itemsOf? list = some xs) : rootFields (.map es) = xs := by
        rw [rootFields, Value.getOrNull, Value.get?_map, hlist, Option.getD_some, hxs,
          Option.getD_some]
      constructor
      · intro h
        have hversion := version_of_schemaProblems h
        rw [schemaProblems_map hversion] at h
        obtain ⟨known, present, list, xs, hlist, hxs, hfits⟩ :=
          attributes_declared_iff.1 (Except.ok.inj h)
        exact ⟨rfl, hversion, present, ⟨list, xs, hlist, hxs⟩, known, (hroot hlist hxs).symm ▸ hfits⟩
      · intro h
        obtain ⟨list, xs, hlist, hxs⟩ := h.fields
        have hfits := h.fits
        rw [hroot hlist hxs] at hfits
        rw [schemaProblems_map h.version]
        exact congrArg Except.ok (attributes_declared_iff.2
          ⟨h.known, h.hasVersion, list, xs, hlist, hxs, hfits⟩)
  | _ =>
      refine ⟨fun h => absurd (Except.ok.inj h) Shape.here_ne_nil, fun h => absurd h.isMap ?_⟩
      simp [Value.isMap]

/-- A schema has nothing but its version and its fields, so it is in every domain that these are
in. -/
theorem HasShape.isIn (h : HasShape v) (hv : v.IsProper) (hone : D.node (.int 1))
    (hfields : (v.getOrNull "fields").IsIn D) : v.IsIn D := by
  cases v with
  | map es =>
      refine .map hv.names_nodup (fun e he => ?_) (fun e he => ?_)
      · rcases h.known e he with hkey | hkey
        · exact hkey ▸ D.key_text _
        · exact hkey ▸ D.key_text _
      · have hvalue : ∀ {n : String}, e.1 = .text n → (Value.map es).getOrNull n = e.2 := by
          intro n hn
          have hget := (Entries.get?_eq_some_iff hv.names_nodup).2 (hn ▸ he : (.text n, e.2) ∈ es)
          rw [Value.getOrNull, Value.get?_map, hget, Option.getD_some]
        rcases h.known e he with hkey | hkey
        · rw [← hvalue hkey, h.version]
          exact .scalar rfl hone
        · rwa [← hvalue hkey]
  | _ => exact absurd h.isMap (by simp [Value.isMap])

theorem isIn_rootFields (h : v.IsIn D) : ∀ x ∈ rootFields v, x.IsIn D := by
  intro x hx
  unfold rootFields at hx
  cases hlist : v.get? "fields" with
  | none =>
      rw [Value.getOrNull, hlist] at hx
      simp [Shape.itemsOf?] at hx
  | some list =>
      rw [Value.getOrNull, hlist, Option.getD_some] at hx
      cases hxs : Shape.itemsOf? list with
      | none =>
          rw [hxs] at hx
          simp at hx
      | some xs =>
          rw [hxs, Option.getD_some] at hx
          exact (h.get? hlist).elements (Value.itemsOf?_eq_some hxs) x hx

/-- All keys in a schema of the right shape are text, and it holds no dates, moments or octets. -/
theorem HasShape.undated (h : HasShape v) (hv : v.IsProper) : v.IsIn .undated := by
  have hundated : ∀ x ∈ rootFields v, x.IsIn .undated := fun x hx =>
    (h.fits x hx).undated (isIn_rootFields hv x hx)
  refine h.isIn hv trivial ?_
  rcases Value.itemsOf?_eq_some h.fields_eq with heq | heq | heq
  · exact heq ▸ .list hundated
  · exact heq ▸ .tuple trivial hundated
  · exact heq ▸ .set trivial hundated

/-! ### Sound schemas -/

/-- A schema in a domain that has the right shape, with ids and keys of their own on all fields. -/
structure IsSound (D : Domain) (schema : Value) : Prop where
  isIn : schema.IsIn D
  shape : HasShape schema
  ids : ((rootFields schema).flatMap (gathered "id")).Nodup
  keys : ((rootFields schema).flatMap (gathered "key")).Nodup

theorem gathered_text (h : HasShape v) (hn : n = "id" ∨ n = "key") :
    ∀ w ∈ (rootFields v).flatMap (gathered n), ∃ s, w = .text s := by
  intro w hw
  obtain ⟨x, hx, hw⟩ := List.mem_flatMap.1 hw
  exact (h.fits x hx).gathered_text hn w hw

/-- Other fields that fit and share no id and no key. -/
theorem IsSound.put_fields (h : IsSound D v) (hxs : ∀ x ∈ xs, x.IsIn D ∧ x.Fits)
    (hids : (xs.flatMap (gathered "id")).Nodup) (hkeys : (xs.flatMap (gathered "key")).Nodup) :
    IsSound D (v.put "fields" (.list xs)) := by
  have hfields : rootFields (v.put "fields" (.list xs)) = xs := by
    rw [rootFields, Value.getOrNull_put_self h.shape.isMap]
    rfl
  refine ⟨h.isIn.put (.list fun x hx => (hxs x hx).1), ?_, by rwa [hfields], by rwa [hfields]⟩
  refine ⟨by rw [Value.isMap_put]; exact h.shape.isMap, ?_, ?_, ?_, ?_, ?_⟩
  · rw [Value.getOrNull_put_of_ne (by decide)]
    exact h.shape.version
  · rw [Value.get?_put_of_ne (by decide)]
    exact h.shape.hasVersion
  · exact ⟨_, xs, Value.get?_put_self h.shape.isMap, rfl⟩
  · cases v with
    | map es =>
        intro e he
        rcases Entries.mem_insert he with he | ⟨-, hk | hk⟩
        · exact h.shape.known e he
        · exact .inr hk
        · obtain ⟨d, hd, hde⟩ := List.mem_map.1 hk
          exact hde ▸ h.shape.known d hd
    | _ => exact absurd h.shape.isMap (by simp [Value.isMap])
  · rw [hfields]
    exact fun x hx => (hxs x hx).2

private theorem empty_eq :
    empty = .map [(.text "version", .int 1), (.text "fields", .list [])] := rfl

theorem isSound_empty (hD : D.node (.int 1)) : IsSound D empty := by
  have hfields : empty.get? "fields" = some (.list []) := by
    rw [empty_eq, Value.get?_map, Entries.get?_cons_of_ne (by simp), Entries.get?_cons_self]
  have hversion : empty.get? "version" = some (.int 1) := by
    rw [empty_eq, Value.get?_map, Entries.get?_cons_self]
  have hroot : rootFields empty = [] := by
    rw [rootFields, Value.getOrNull, hfields]
    rfl
  refine ⟨?_, ⟨rfl, ?_, ⟨_, hversion⟩, ⟨_, [], hfields, rfl⟩, ?_, ?_⟩, ?_, ?_⟩
  · refine IsIn.ofFields (by simp) ?_
    simp only [List.forall_mem_cons]
    exact ⟨.scalar rfl hD, .list (List.forall_mem_nil _), List.forall_mem_nil _⟩
  · rw [Value.getOrNull, hversion, Option.getD_some]
  · rw [empty_eq]
    simp [Value.entriesOf, Value.asMap?]
  · simp [hroot]
  · simp [hroot]
  · simp [hroot]

/-- All keys in a sound schema are text. -/
theorem IsSound.textKeyed (h : IsSound D v) : v.IsIn .textKeyed :=
  (h.shape.undated h.isIn.isProper).textKeyed_of_undated

theorem rootFields_image (hv : v.IsIn D) (sorted : Bool) :
    rootFields (Json.image sorted v) = (rootFields v).map (Json.image sorted) := by
  rw [rootFields, Value.getOrNull_image hv, Shape.itemsOf?_image, rootFields]
  cases Shape.itemsOf? (v.getOrNull "fields") <;> rfl

/-- What JSON keeps of a sound schema is sound. -/
theorem IsSound.image (h : IsSound D v) (sorted : Bool)
    (hD : ∀ a, D.node (.float (.nan a)) → D.node (.float (.nan 0))) :
    IsSound D (Json.image sorted v) := by
  have hproper : v.IsProper := h.isIn.isProper
  have hgathered : ∀ n, n = "id" ∨ n = "key" →
      (rootFields (Json.image sorted v)).flatMap (gathered n) =
        (rootFields v).flatMap (gathered n) := by
    intro n hn
    rw [rootFields_image hproper, List.flatMap_map]
    exact List.flatMap_congr fun x hx =>
      (h.shape.fits x hx).gathered_image (isIn_rootFields hproper x hx) hn sorted
  refine ⟨Json.image_isIn hD h.isIn, ⟨?_, ?_, ?_, ?_, ?_, ?_⟩, ?_, ?_⟩
  · rw [Value.isMap_image]
    exact h.shape.isMap
  · rw [Value.getOrNull_image hproper, h.shape.version]
    rfl
  · obtain ⟨w, hw⟩ := h.shape.hasVersion
    exact ⟨_, by rw [Json.get?_image hproper, hw]; rfl⟩
  · obtain ⟨list, xs, hlist, hxs⟩ := h.shape.fields
    refine ⟨Json.image sorted list, xs.map (Json.image sorted), ?_, ?_⟩
    · rw [Json.get?_image hproper, hlist]
      rfl
    · rw [Shape.itemsOf?_image, hxs]
      rfl
  · have hknown := h.shape.known
    cases v with
    | map es =>
        rw [Json.image_map]
        intro e he
        obtain ⟨d, hd, rfl⟩ := List.mem_map.1 ((Json.image_map_perm sorted es).mem_iff.1 he)
        exact hknown d hd
    | _ => exact absurd h.shape.isMap (by simp [Value.isMap])
  · rw [rootFields_image hproper]
    exact List.forall_mem_map.2 fun x hx =>
      (h.shape.fits x hx).image (isIn_rootFields hproper x hx)
  · rw [hgathered "id" (.inl rfl)]
    exact h.ids
  · rw [hgathered "key" (.inr rfl)]
    exact h.keys

/-- The text of a sound schema is read back as what JSON keeps of it. -/
theorem IsSound.parse_exportText (h : IsSound D v) {text : String}
    (htext : exportText v = .ok text) :
    Json.parse text = .ok (Json.image true v) :=
  Json.parse_write h.textKeyed htext

/-! ### Accepted schemas -/

private theorem mapM_eq_nil_iff {α β : Type} {f : α → Except Failure β} {xs : List α} :
    xs.mapM f = .ok [] ↔ xs = [] := by
  constructor
  · intro h
    have hmap := Result.mapM_eq_ok h
    exact List.map_eq_nil_iff.1 hmap.symm
  · rintro rfl
    rfl

/-- A document is a valid schema if its shape is right, no id and no key occurs twice in it, and no
field's least value exceeds its greatest. -/
theorem problems_eq_nil_iff : problems v = .ok [] ↔
    HasShape v ∧ ((rootFields v).flatMap (gathered "id")).Nodup ∧
      ((rootFields v).flatMap (gathered "key")).Nodup ∧
        ∀ f ∈ Forest.preorder true (forest v), rangeProblem f = .ok none := by
  have hunique : HasShape v → ∀ n, n = "id" ∨ n = "key" →
      (duplicates ((rootFields v).flatMap (gathered n)) = [] ↔
        ((rootFields v).flatMap (gathered n)).Nodup) :=
    fun hshape n hn => duplicates_eq_nil_iff (gathered_text hshape hn)
  constructor
  · intro h
    obtain ⟨shape, hshape, h⟩ := Result.bind_eq_ok.1 h
    cases shape with
    | cons p ps => exact absurd (Except.ok.inj h) (List.cons_ne_nil _ _)
    | nil =>
        have hsound := schemaProblems_eq_nil_iff.1 hshape
        obtain ⟨ids, hids, h⟩ := Result.bind_eq_ok.1 h
        obtain ⟨keys, hkeys, h⟩ := Result.bind_eq_ok.1 h
        obtain ⟨ranges, hranges, h⟩ := Result.bind_eq_ok.1 h
        obtain ⟨hnames, hnone⟩ := List.append_eq_nil_iff.1 (Except.ok.inj h)
        obtain ⟨rfl, rfl⟩ := List.append_eq_nil_iff.1 hnames
        rw [mapM_eq_nil_iff, ids_forest, hunique hsound "id" (.inl rfl)] at hids
        rw [mapM_eq_nil_iff, keys_forest, hunique hsound "key" (.inr rfl)] at hkeys
        refine ⟨hsound, hids, hkeys, fun f hf => ?_⟩
        have hmem : rangeProblem f ∈ ranges.map Except.ok := by
          rw [Result.mapM_eq_ok hranges]
          exact List.mem_map_of_mem hf
        obtain ⟨r, hr, hf⟩ := List.mem_map.1 hmem
        cases r with
        | none => exact hf.symm
        | some message => exact absurd (List.filterMap_eq_nil_iff.1 hnone _ hr) (by simp)
  · rintro ⟨hshape, hids, hkeys, hranges⟩
    have hidsNone : duplicates (Forest.ids (forest v)) = [] := by
      rw [ids_forest]
      exact (hunique hshape "id" (.inl rfl)).2 hids
    have hkeysNone : duplicates (Forest.keys (forest v)) = [] := by
      rw [keys_forest]
      exact (hunique hshape "key" (.inr rfl)).2 hkeys
    unfold problems
    refine Result.bind_eq_ok.2 ⟨[], schemaProblems_eq_nil_iff.2 hshape, ?_⟩
    refine Result.bind_eq_ok.2 ⟨[], mapM_eq_nil_iff.2 hidsNone, ?_⟩
    refine Result.bind_eq_ok.2 ⟨[], mapM_eq_nil_iff.2 hkeysNone, ?_⟩
    refine Result.bind_eq_ok.2 ⟨_, Result.mapM_of_forall hranges, ?_⟩
    refine congrArg Except.ok ?_
    simp [List.filterMap_map]

theorem accept_eq_ok_iff : accept v = .ok w ↔ w = v ∧ problems v = .ok [] := by
  constructor
  · intro h
    obtain ⟨found, hfound, h⟩ := Result.bind_eq_ok.1 h
    cases found with
    | nil => exact ⟨(Except.ok.inj h).symm, hfound⟩
    | cons p ps => cases h
  · rintro ⟨rfl, h⟩
    rw [accept, h]
    rfl

theorem isSound_of_problems (hv : v.IsIn D) (h : problems v = .ok []) : IsSound D v := by
  obtain ⟨hshape, hids, hkeys, -⟩ := problems_eq_nil_iff.1 h
  exact ⟨hv, hshape, hids, hkeys⟩

/-- What a text or a value says keeps one value under each text. -/
theorem isProper_of_parse (hv : v.IsProper) (h : parse v = .ok w) : w.IsProper := by
  cases v with
  | text s =>
      change parseText s = .ok w at h
      unfold parseText at h
      split at h
      · rename_i hread
        exact Except.ok.inj h ▸ (Json.isIn_of_read hread).isProper
      · split at h
        · rename_i hread
          exact Except.ok.inj h ▸ Yaml.isProper_of_read hread
        · split at h <;> cases h
        · cases h
  | _ =>
      obtain rfl := Except.ok.inj h
      exact hv

theorem load_eq_ok_iff : load v = .ok w ↔ parse v = .ok w ∧ problems w = .ok [] := by
  rw [load, Result.bind_eq_ok]
  constructor
  · rintro ⟨u, hu, h⟩
    obtain ⟨rfl, hproblems⟩ := accept_eq_ok_iff.1 h
    exact ⟨hu, hproblems⟩
  · rintro ⟨hw, h⟩
    exact ⟨w, hw, accept_eq_ok_iff.2 ⟨rfl, h⟩⟩

/-- A valid schema that is given as a value is loaded as it is. -/
theorem load_of_problems (h : problems v = .ok []) : load v = .ok v := by
  refine load_eq_ok_iff.2 ⟨?_, h⟩
  cases v with
  | text s => exact absurd (problems_eq_nil_iff.1 h).1.isMap (by simp [Value.isMap])
  | _ => rfl

end Schema

end FormDesigner
