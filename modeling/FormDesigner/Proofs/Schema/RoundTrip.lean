import Mathlib
import FormDesigner.Proofs.Schema.Range

/-!
# Schemas that are written and read

The canonical text of a valid schema that JSON can carry is read as JSON and loaded again. What is
loaded differs from the schema in nothing but the order of the members of its mappings: the items of
a list keep their places, every key keeps its value, and every scalar stays what it is, so that a
truth value, an integer and a floating-point number of the same size are told apart.

So two values have one canonical text exactly when they differ in nothing but the order of members.
Both halves go through the sorted value, which has the same text and is what the text is read back
as. Sorting in turn forgets the order of members and nothing else, because no name occurs twice.
-/

namespace FormDesigner

namespace Value

/-- Values that differ at most in the order of the members of their mappings. -/
inductive Rearranges : Value → Value → Prop
  | scalar {v : Value} (hv : v.isScalar = true) : Rearranges v v
  | list {xs ys : List Value} (length : xs.length = ys.length)
      (items : ∀ (i : Nat) (hx : i < xs.length) (hy : i < ys.length), Rearranges xs[i] ys[i]) :
      Rearranges (.list xs) (.list ys)
  | map {es fs : Entries} (keys : (Entries.keys es).Perm (Entries.keys fs))
      (values : ∀ k v w, (k, v) ∈ es → (k, w) ∈ fs → Rearranges v w) :
      Rearranges (.map es) (.map fs)

/-- A key of a mapping that JSON can carry has one value. -/
theorem IsJson.value_unique {es : Entries} (h : (Value.map es).IsJson) {k v w : Value}
    (hv : (k, v) ∈ es) (hw : (k, w) ∈ es) : v = w := by
  obtain ⟨names, keys, -⟩ := IsIn.map_iff.1 h
  obtain ⟨n, rfl⟩ := keys _ hv
  have hget := (Entries.get?_eq_some_iff names).2 hv
  exact Option.some.inj (hget.symm.trans ((Entries.get?_eq_some_iff names).2 hw))

/-- By induction on the value: its members are sorted at every level, and stay what they are. -/
theorem IsJson.rearranges_sortKeys {v : Value} (hv : v.IsJson) : v.sortKeys.Rearranges v := by
  rw [← Json.image_eq_sortKeys hv]
  induction hv with
  | @scalar v hv node =>
      rw [Json.image_of_scalar hv node]
      exact .scalar hv
  | @list xs _ ih =>
      rw [Json.image_list]
      refine .list (List.length_map _) fun i hx hy => ?_
      rw [List.getElem_map]
      exact ih _ (List.getElem_mem hy)
  | tuple node => exact absurd node id
  | set node => exact absurd node id
  | @map es names keys values ih =>
      have hjson : (Value.map es).IsJson := .map names keys values
      have hperm := Json.image_map_perm true es
      rw [Json.image_map]
      refine .map ?_ fun k v w hv hw => ?_
      · refine (hperm.map Prod.fst).trans (.of_eq ?_)
        rw [List.map_map]
        rfl
      · obtain ⟨e, he, heq⟩ := List.mem_map.1 (hperm.mem_iff.1 hv)
        obtain ⟨rfl, rfl⟩ := Prod.mk.inj heq
        rw [hjson.value_unique hw he]
        exact ih e he

end Value

namespace Schema

open Value (IsIn)

/-- A valid schema that JSON can carry has a text. The text is JSON, and what it says is loaded: the
schema, with its members in another order. -/
theorem load_of_exportText {schema : Value} (carried : schema.IsJson)
    (valid : problems schema = .ok []) :
    ∃ text loaded, exportText schema = .ok text ∧ Json.read text = .ok loaded ∧
      load (.text text) = .ok loaded ∧ loaded.Rearranges schema := by
  have hsound : IsSound .json schema := isSound_of_problems carried valid
  obtain ⟨text, htext⟩ := Json.exists_write .canonical carried
  have hread : Json.read text = .ok schema.sortKeys := by
    rw [Json.read_write hsound.textKeyed htext]
    exact congrArg Except.ok (Json.image_eq_sortKeys carried)
  have hload : load (.text text) = .ok schema.sortKeys :=
    (hsound.load_exportText htext).1 (hsound.valid_iff.1 valid)
  exact ⟨text, schema.sortKeys, htext, hread, hload, carried.rearranges_sortKeys⟩

/-- A text whose default value lists scalars that are equal or nearly so. -/
def oddField : Value :=
  .ofFields [("type", .text "text"), ("key", .text "\"n\\"), ("id", .text "2"),
    ("label", .text "\t\u0001é😀\n"), ("helpText", .null),
    ("defaultValue", .list [.bool false, .int 0, .float (.zero true), .text "0"])]

/-- A section with this field, in a schema whose members are in no order. -/
def oddSchema : Value :=
  .ofFields [("version", .int 1), ("fields", .list [
    .ofFields [("type", .text "section"), ("key", .text "s"), ("id", .text "1"),
      ("label", .text ""), ("children", .list [oddField])]])]

theorem oddField_isJson : oddField.IsJson := by
  have hzero : (Value.int 0).IsJson := .scalar rfl (Value.isSome_integerText? (by decide))
  have hvalue : (Value.list [.bool false, .int 0, .float (.zero true), .text "0"]).IsJson := by
    refine .list ?_
    simp only [List.forall_mem_cons]
    exact ⟨.scalar rfl trivial, hzero, .scalar rfl rfl, .text _, List.forall_mem_nil _⟩
  refine IsIn.ofFields (by simp) ?_
  simp only [List.forall_mem_cons]
  exact ⟨.text _, .text _, .text _, .text _, .scalar rfl trivial, hvalue, List.forall_mem_nil _⟩

theorem oddSchema_isJson : oddSchema.IsJson := by
  have hone : (Value.int 1).IsJson := .scalar rfl (Value.isSome_integerText? (by decide))
  refine IsIn.ofFields (by simp) ?_
  simp only [List.forall_mem_cons]
  refine ⟨hone, .list (List.forall_mem_singleton.2 (IsIn.ofFields (by simp) ?_)),
    List.forall_mem_nil _⟩
  simp only [List.forall_mem_cons]
  exact ⟨.text _, .text _, .text _, .text _, .list (List.forall_mem_singleton.2 oddField_isJson),
    List.forall_mem_nil _⟩

/-- Its text is loaded again. -/
theorem load_of_exportText_oddSchema : oddSchema.IsJson ∧ problems oddSchema = .ok [] ∧
    ∃ text loaded, exportText oddSchema = .ok text ∧ Json.read text = .ok loaded ∧
      load (.text text) = .ok loaded ∧ loaded.Rearranges oddSchema := by
  have hvalid : problems oddSchema = .ok [] := by cbv
  exact ⟨oddSchema_isJson, hvalid, load_of_exportText oddSchema_isJson hvalid⟩

end Schema

/-! ### The canonical text tells values apart -/

section Canonical

open Value (IsIn)

variable {v w : Value} {es fs : Entries}

namespace Entries

theorem mem_keys_iff {k : Value} : k ∈ keys es ↔ ∃ v, (k, v) ∈ es := by simp [keys]

/-- Distinct names are distinct keys where all keys are texts. -/
theorem keys_nodup (names : (names es).Nodup) (texts : ∀ e ∈ es, ∃ s, e.1 = Value.text s) :
    (keys es).Nodup := by
  have hkeys : keys es = (es.names).map .text := by
    rw [Entries.names, List.map_filterMap, keys, ← List.filterMap_eq_map]
    refine List.filterMap_congr fun e he => ?_
    obtain ⟨s, hs⟩ := texts e he
    simp [hs, Value.asText?]
  rw [hkeys]
  exact names.map fun _ _ => Value.text.inj

end Entries

namespace Json

/-- Members under distinct names have one order. -/
theorem inOrder_eq_of_perm (names : (Entries.names es).Nodup)
    (texts : ∀ e ∈ es, ∃ s, e.1 = Value.text s) (h : es.Perm fs) :
    inOrder true es = inOrder true fs := by
  have htexts : ∀ e ∈ fs, ∃ s, e.1 = Value.text s := fun e he => texts e (h.mem_iff.2 he)
  have hperm := (inOrder_perm true es).trans (h.trans (inOrder_perm true fs).symm)
  refine hperm.eq_of_pairwise ?_ (pairwise_inOrder texts) (pairwise_inOrder htexts)
  rintro ⟨k, v⟩ ⟨l, w⟩ hv hw hkl hlk
  have hv' := (inOrder_perm true es).mem_iff.1 hv
  have hw' := h.mem_iff.2 ((inOrder_perm true fs).mem_iff.1 hw)
  obtain ⟨s, rfl⟩ := texts _ hv'
  obtain ⟨t, rfl⟩ := texts _ hw'
  obtain rfl : s = t := String.le_antisymm (hkl s t rfl rfl) (hlk t s rfl rfl)
  rw [← Entries.get?_eq_some_iff names] at hv' hw'
  rw [Option.some.inj (hv'.symm.trans hw')]

end Json

namespace Value

open Json (image)

/-- The members of two mappings have the same images if their keys are the same and so are the
images of the values under one key. -/
theorem IsJson.perm_images (hes : (Value.map es).IsJson)
    (keys : (Entries.keys es).Perm (Entries.keys fs))
    (values : ∀ k v w, (k, v) ∈ es → (k, w) ∈ fs → image true v = image true w) :
    (es.map fun e => (e.1, image true e.2)).Perm (fs.map fun e => (e.1, image true e.2)) := by
  obtain ⟨names, texts, -⟩ := IsIn.map_iff.1 hes
  have hnodup : (es.map fun e => (e.1, image true e.2)).Nodup := by
    refine .of_map Prod.fst ?_
    rw [List.map_map]
    exact Entries.keys_nodup names texts
  refine (List.subperm_of_subset hnodup fun f hf => ?_).perm_of_length_le ?_
  · obtain ⟨⟨k, v⟩, hv, rfl⟩ := List.mem_map.1 hf
    obtain ⟨w, hw⟩ := Entries.mem_keys_iff.1 (keys.mem_iff.1 (Entries.mem_keys_iff.2 ⟨v, hv⟩))
    exact List.mem_map.2 ⟨(k, w), hw, by rw [values k v w hv hw]⟩
  · simpa [Entries.keys] using keys.length_eq.ge

/-- Values that differ in the order of members alone have one image. By induction on what relates
them. -/
theorem Rearranges.image_eq (h : v.Rearranges w) (hv : v.IsJson) (hw : w.IsJson) :
    image true v = image true w := by
  induction h with
  | scalar => rfl
  | @list xs ys length items ih =>
      have hxs := IsIn.list_iff.1 hv
      have hys := IsIn.list_iff.1 hw
      rw [Json.image_list, Json.image_list, list.injEq]
      refine List.ext_getElem (by rw [List.length_map, List.length_map, length]) fun i hx hy => ?_
      rw [List.getElem_map, List.getElem_map]
      exact ih i _ _ (hxs _ (List.getElem_mem _)) (hys _ (List.getElem_mem _))
  | @map es fs keys values ih =>
      obtain ⟨names, texts, -⟩ := IsIn.map_iff.1 hv
      have hperm := hv.perm_images keys fun k v w hkv hkw =>
        ih k v w hkv hkw (hv.of_mem hkv) (hw.of_mem hkw)
      rw [Json.image_map, Json.image_map, map.injEq]
      refine Json.inOrder_eq_of_perm ?_ (List.forall_mem_map.2 texts) hperm
      rwa [Entries.names_map_values fun e => image true e.2]

/-- Only a list has the image of a list. -/
theorem IsJson.exists_of_image_list (hw : w.IsJson) {xs : List Value}
    (h : image true w = .list xs) : ∃ ys, w = .list ys ∧ ys.map (image true) = xs := by
  cases hw with
  | scalar hw node =>
      rw [Json.image_of_scalar hw node] at h
      simp [h, isScalar] at hw
  | list => exact ⟨_, rfl, by rwa [Json.image_list, list.injEq] at h⟩
  | tuple node => exact absurd node id
  | set node => exact absurd node id
  | map => simp [Json.image_map] at h

/-- Only a mapping has the image of a mapping. -/
theorem IsJson.exists_of_image_map (hw : w.IsJson) (h : image true w = .map es) :
    ∃ fs, w = .map fs ∧ Json.inOrder true (fs.map fun e => (e.1, image true e.2)) = es := by
  cases hw with
  | scalar hw node =>
      rw [Json.image_of_scalar hw node] at h
      simp [h, isScalar] at hw
  | list => simp [Json.image_list] at h
  | tuple node => exact absurd node id
  | set node => exact absurd node id
  | map => exact ⟨_, rfl, by rwa [Json.image_map, map.injEq] at h⟩

/-- An image tells all of a value but the order of members. By induction on the value, since only a
list has the image of a list and only a mapping that of a mapping. -/
theorem IsJson.rearranges_of_image_eq (hv : v.IsJson) (hw : w.IsJson)
    (h : image true w = image true v) : w.Rearranges v := by
  induction hv generalizing w with
  | @scalar v hv node =>
      rw [Json.image_of_scalar hv node] at h
      cases hw with
      | scalar hw node =>
          rw [Json.image_of_scalar hw node] at h
          exact h ▸ .scalar hw
      | list => simp [← h, Json.image_list, isScalar] at hv
      | tuple node => exact absurd node id
      | set node => exact absurd node id
      | map => simp [← h, Json.image_map, isScalar] at hv
  | @list xs _ ih =>
      obtain ⟨ys, rfl, hys⟩ := hw.exists_of_image_list (h.trans (Json.image_list xs))
      have length : ys.length = xs.length := by simpa using congrArg List.length hys
      refine .list length fun i hy hx => ?_
      refine ih _ (List.getElem_mem hx) (IsIn.list_iff.1 hw _ (List.getElem_mem hy)) ?_
      simpa [hy, hx] using congrArg (·[i]?) hys
  | tuple node => exact absurd node id
  | set node => exact absurd node id
  | @map es names texts values ih =>
      have hes : (Value.map es).IsJson := .map names texts values
      obtain ⟨fs, rfl, hfs⟩ := hw.exists_of_image_map (h.trans (Json.image_map es))
      have hperm := (Json.image_map_perm true fs).symm.trans
        (.trans (.of_eq hfs) (Json.image_map_perm true es))
      refine .map (by simpa [Entries.keys, Function.comp_def] using hperm.map Prod.fst)
        fun k u v hu hv => ?_
      -- the value under the key whose image stands among the images is this one
      obtain ⟨⟨l, v'⟩, hv', heq⟩ := List.mem_map.1
        (hperm.mem_iff.1 (List.mem_map_of_mem (f := fun e => (e.1, image true e.2)) hu))
      obtain ⟨rfl, himage⟩ := Prod.mk.inj heq
      obtain rfl := hes.value_unique hv hv'
      exact ih _ hv (hw.of_mem hu) himage.symm

theorem IsJson.image_eq_iff (hv : v.IsJson) (hw : w.IsJson) :
    image true v = image true w ↔ v.Rearranges w :=
  ⟨hw.rearranges_of_image_eq hv, fun h => h.image_eq hv hw⟩

end Value

namespace Schema

/-- Two values that JSON can carry have texts, and these are the same exactly when the values differ
in nothing but the order of members. -/
theorem exportText_eq_iff (hv : v.IsJson) (hw : w.IsJson) :
    ∃ s t, exportText v = .ok s ∧ exportText w = .ok t ∧ (s = t ↔ v.Rearranges w) := by
  obtain ⟨s, hs⟩ := Json.exists_write .canonical hv
  obtain ⟨t, ht⟩ := Json.exists_write .canonical hw
  refine ⟨s, t, hs, ht, ?_⟩
  rw [← hv.image_eq_iff hw]
  constructor
  · rintro rfl
    have hparse := (Json.parse_write hv.textKeyed hs).symm.trans (Json.parse_write hw.textKeyed ht)
    exact Except.ok.inj hparse
  · intro himage
    have hsorted := Json.writeAt_image hv.textKeyed hs
    rw [show Json.Style.canonical.sorted = true from rfl, himage] at hsorted
    exact Except.ok.inj (hsorted.symm.trans (Json.writeAt_image hw.textKeyed ht))

/-- Members with a negative zero among them. -/
def zeroFirst : Value :=
  .ofFields [("zero", .float (.zero true)), ("ones", .list [.int 1, .bool true])]

/-- The same members in the other order. -/
def zeroLast : Value :=
  .ofFields [("ones", .list [.int 1, .bool true]), ("zero", .float (.zero true))]

/-- A truth value in place of the number that it equals. -/
def allTrue : Value :=
  .ofFields [("zero", .float (.zero true)), ("ones", .list [.bool true, .bool true])]

theorem zeros_isJson : zeroFirst.IsJson ∧ zeroLast.IsJson ∧ allTrue.IsJson := by
  have hzero : (Value.float (.zero true)).IsJson := .scalar rfl rfl
  have hone : (Value.int 1).IsJson := .scalar rfl (Value.isSome_integerText? (by decide))
  have htrue : (Value.bool true).IsJson := .scalar rfl trivial
  refine ⟨IsIn.ofFields (by simp) ?_, IsIn.ofFields (by simp) ?_, IsIn.ofFields (by simp) ?_⟩ <;>
    simp [IsIn.list_iff, hzero, hone, htrue]

/-- The order of members does not show in the text, and the kind of a number does. -/
theorem exportText_eq_iff_zeros :
    ∃ s t, exportText zeroFirst = .ok s ∧ exportText zeroLast = .ok s ∧
      exportText allTrue = .ok t ∧ s ≠ t := by
  obtain ⟨hfirst, hlast, htrue⟩ := zeros_isJson
  obtain ⟨s, s', hs, hs', hsame⟩ := exportText_eq_iff hfirst hlast
  obtain ⟨s'', t, hs'', ht, hother⟩ := exportText_eq_iff hfirst htrue
  obtain rfl : s = s'' := Except.ok.inj (hs.symm.trans hs'')
  have hrearranged : zeroFirst.Rearranges zeroLast :=
    (hfirst.image_eq_iff hlast).1 (by cbv)
  have hnot : ¬zeroFirst.Rearranges allTrue := by
    intro h
    cases h with
    | map _ values =>
        -- the lists of ones begin with different scalars
        have hones := values (.text "ones") _ _ (.tail _ (.head _)) (.tail _ (.head _))
        cases hones with
        | list _ items => cases items 0 (by simp) (by simp)
  exact ⟨s, t, hs, hsame.2 hrearranged ▸ hs', ht, hnot ∘ hother.1⟩

end Schema

end Canonical

end FormDesigner
