import FormDesigner.Proofs.Result
import FormDesigner.Proofs.Schema.Document
import FormDesigner.Proofs.Schema.Outline

/-!
# Descriptions of changes

A sound schema is indexed by its outline, so what changed from one schema to another can be read off
two outlines. Fields that only one of them has are named by their types and keys, and fields that both
have give a line where their attributes, their owners or their ranks differ.
-/

namespace FormDesigner

namespace Value

variable {v w : Value} {n s : String}

/-- The text under a name, empty if there is none. -/
def textAt (v : Value) (n : String) : String := (v.getOrNull n).asText?.getD ""

/-- A field by its type and key. -/
def caption (v : Value) : String := v.textAt "type" ++ " field '" ++ v.textAt "key" ++ "'"

theorem textAt_eq (h : v.getOrNull n = .text s) : v.textAt n = s := by
  rw [textAt, h]
  rfl

theorem plain_of_text (h : v.getOrNull n = .text s) : (v.getOrNull n).plain = .ok (v.textAt n) := by
  rw [textAt_eq h, h]
  rfl

theorem Fits.typeAndKey_eq (h : v.Fits) : Schema.typeAndKey v = .ok v.caption := by
  obtain ⟨type, htype⟩ := h.exists_type
  obtain ⟨key, -, hkey⟩ := h.key
  rw [Schema.typeAndKey, plain_of_text htype, plain_of_text hkey]
  rfl

end Value

namespace Schema

open Value (gathered forest_induction Fits)
open FormDesigner.Field (ofValue)

variable {owner id : Value} {i : Nat} {v old new : Value} {vs : List Value} {l m : Located}
  {ls ms : List Located} {D E : Value.Domain}

/-! ### Indexing -/

namespace FieldIndex

variable {found : FieldIndex}

theorem enter_of_notMem {s : String} (h : .text s ∉ found.map Prod.fst) :
    found.enter (.text s) l = .ok (found ++ [(.text s, l)]) := by
  have hany : (found.any fun e => (Value.text s).same e.1) = false := by
    refine List.any_eq_false.2 fun e he hsame => h ?_
    rw [← Value.same_text_iff.1 hsame]
    exact List.mem_map_of_mem he
  rw [enter, hany]
  rfl

private theorem walkFault?_children (hv : v.Fits) (hsection : v.isSection = true) :
    (v.getOrNull "children").walkFault? = none := by
  obtain ⟨es, rfl⟩ := Value.exists_eq_map hv.isMap
  obtain ⟨list, xs, hlist, hxs, -⟩ :=
    hv.exists_children (Value.get?_of_getOrNull (Value.isSection_iff.1 hsection).2 nofun)
  rw [Value.getOrNull, Value.get?_map, hlist, Option.getD_some]
  rcases Value.itemsOf?_eq_some hxs with rfl | rfl | rfl <;> rfl

/-- A field is entered before its branches. -/
private theorem ofField_ofValue (hv : v.Fits) : ofField found owner i (ofValue v) =
    found.enter (v.getOrNull "id") ⟨v, owner, i⟩ >>= fun found =>
      ofFields found (v.getOrNull "id") 0 (v.branches.map ofValue) := by
  have hbelow : ∀ found : FieldIndex, ofFields found (v.getOrNull "id") 0 (v.branches.map ofValue) =
      ofFields found (v.getOrNull "id") 0 (v.childValues.map ofValue) >>= fun found =>
        ofTemplate found (v.getOrNull "id") (v.templateValue?.map ofValue) := by
    intro found
    by_cases hsection : v.isSection = true
    · rw [Value.branches_of_isSection hsection, Value.templateValue?_of_isSection hsection]
      exact (bind_pure _).symm
    · rw [Value.branches_of_not_isSection hsection, Value.childValues_of_not_isSection hsection,
        hv.fieldTemplate_eq]
      cases ht : v.templateValue? with
      | none => rfl
      | some t =>
          have hmap := (hv.template t ht).isMap
          rw [Option.map_some, Field.ofValue_eq, List.map_nil, ofFields, Result.ok_bind, ofTemplate,
            if_pos hmap, ← Field.ofValue_eq]
          exact bind_pure _
  rw [Field.ofValue_eq, ofField, hv.isMap]
  simp only [Bool.not_true, Bool.false_eq_true, if_false, hbelow]
  refine bind_congr fun found => ?_
  split
  · next hsection =>
      rw [walkFault?_children hv (Bool.and_eq_true_iff.1 hsection).1]
  · rfl

/-- Fields whose ids have not been met are entered in the order of their outline. -/
theorem ofFields_outlineFrom (found : FieldIndex) (hfits : ∀ v ∈ vs, v.Fits)
    (hids : (found.map Prod.fst ++ vs.flatMap (gathered "id")).Nodup) :
    ofFields found owner i (vs.map ofValue) = .ok (found ++ index (outlineFrom owner i vs)) := by
  induction vs using forest_induction generalizing found owner i with
  | nil => exact congrArg Except.ok (List.append_nil _).symm
  | cons v vs ihBranches ih =>
      obtain ⟨hv, hvs⟩ := List.forall_mem_cons.1 hfits
      obtain ⟨s, -, hs⟩ := hv.id
      rw [List.flatMap_cons, Value.gathered_eq_branches, hs] at hids
      have hfresh : .text s ∉ found.map Prod.fst := fun hmem =>
        (List.nodup_append'.1 hids).2.2 hmem (.head _)
      obtain ⟨entered, hentered⟩ : ∃ entered : FieldIndex,
        entered = found ++ [(.text s, ⟨v, owner, i⟩)] := ⟨_, rfl⟩
      have hnames : entered.map Prod.fst = found.map Prod.fst ++ [.text s] := by
        rw [hentered, List.map_append]
        rfl
      have hbranches : ofFields entered (.text s) 0 (v.branches.map ofValue) =
          .ok (entered ++ index (outlineFrom (.text s) 0 v.branches)) := by
        refine ihBranches _ hv.branches ?_
        rw [hnames, List.append_assoc]
        exact hids.sublist (List.Sublist.append_left
          (.cons_cons _ (List.sublist_append_left _ _)) _)
      have hrest : ofFields (entered ++ index (outlineFrom (.text s) 0 v.branches)) owner (i + 1)
          (vs.map ofValue) = .ok (entered ++ index (outlineFrom (.text s) 0 v.branches) ++
            index (outlineFrom owner (i + 1) vs)) := by
        refine ih _ hvs ?_
        rw [List.map_append, hnames, map_fst_index, map_id_outlineFrom]
        simpa only [List.append_assoc, List.cons_append, List.nil_append] using hids
      rw [List.map_cons, ofFields, ofField_ofValue hv, hs, enter_of_notMem hfresh, Result.ok_bind,
        ← hentered, hbranches, Result.ok_bind, hrest, outlineFrom_cons, hs, hentered]
      simp only [index, List.map_cons, List.map_append, Located.id, hs, List.append_assoc,
        List.cons_append, List.nil_append]

/-- A sound schema is indexed by its outline. -/
theorem ofSchema_eq (h : IsSound D old) : ofSchema old = .ok (index (outline (rootFields old))) := by
  have hroots := h.shape.fields_eq
  obtain ⟨list, xs, hlist, hxs⟩ := h.shape.fields
  have hitems : Field.itemsOf list = (rootFields old).map ofValue := by
    rw [Value.getOrNull, hlist, Option.getD_some] at hroots
    rw [Field.itemsOf_eq_map, hroots, Option.getD_some]
  have hwalk : list.walkFault? = none := by
    rcases Value.itemsOf?_eq_some hxs with rfl | rfl | rfl <;> rfl
  rw [ofSchema, h.shape.isMap, hlist]
  simp only [Bool.not_true, Bool.false_eq_true, if_false, Option.getD_some, hwalk, hitems]
  exact ofFields_outlineFrom [] h.shape.fits h.ids

end FieldIndex

/-! ### Outlines of sound schemas -/

/-- What an outline of a sound schema has, and every part of it. -/
structure IsOutline (D : Value.Domain) (ls : List Located) : Prop where
  isIn : ∀ l ∈ ls, l.field.IsIn D
  fits : ∀ l ∈ ls, l.field.Fits
  ids : (ls.map Located.id).Nodup
  rises : ls.Pairwise Rises
  owners : ∀ l ∈ ls, IsOwner l.owner

theorem IsOutline.filter (h : IsOutline D ls) (p : Located → Bool) : IsOutline D (ls.filter p) :=
  ⟨fun l hl => h.isIn l (List.mem_of_mem_filter hl),
    fun l hl => h.fits l (List.mem_of_mem_filter hl), h.ids.sublist (List.filter_sublist.map _),
    h.rises.filter p, fun l hl => h.owners l (List.mem_of_mem_filter hl)⟩

theorem IsOutline.exists_id (h : IsOutline D ls) (hl : l ∈ ls) : ∃ s, l.id = .text s := by
  obtain ⟨s, -, hs⟩ := (h.fits l hl).id
  exact ⟨s, hs⟩

theorem IsOutline.eq_of_id (h : IsOutline D ls) (hl : l ∈ ls) (hm : m ∈ ls) (heq : l.id = m.id) :
    l = m := List.inj_on_of_nodup_map h.ids hl hm heq

theorem IsSound.isOutline (h : IsSound D old) : IsOutline D (outline (rootFields old)) := by
  have htexts := gathered_text h.shape (n := "id") (.inl rfl)
  refine ⟨fun l hl => ?_, fun l hl => ?_, ?_, ?_, fun l hl => ?_⟩
  · obtain ⟨v, hv, hl⟩ := List.mem_flatMap.1 (field_mem_of_mem hl)
    exact (isIn_rootFields h.isIn v hv).owned l.field hl
  · obtain ⟨v, hv, hl⟩ := List.mem_flatMap.1 (field_mem_of_mem hl)
    exact (h.shape.fits v hv).owned l.field hl
  · rw [map_id_outlineFrom]
    exact h.ids
  · refine outlineFrom_rises (fun hnull => ?_) h.ids
    obtain ⟨s, hs⟩ := htexts .null hnull
    cases hs
  · rcases owner_of_mem hl with ⟨hnull, -⟩ | hmem
    · exact .inl hnull
    · exact .inr (htexts l.owner hmem)

/-! ### Fields of one outline or of two -/

/-- The fields whose ids another outline has too. -/
def common (ls ms : List Located) : List Located := ls.filter fun l => ((index ms).get? l.id).isSome

/-- The fields whose ids another outline does not have. -/
def lacking (ls ms : List Located) : List Located := ls.filter fun l => ((index ms).get? l.id).isNone

theorem get?_index_of_mem (hls : IsOutline D ls) (hl : l ∈ ls) (hid : id = l.id) :
    (index ls).get? id = some l := by
  obtain ⟨s, hs⟩ := hls.exists_id hl
  have hsome : ((index ls).find? fun e => l.id.same e.1).isSome = true := by
    rw [List.find?_isSome]
    refine ⟨(l.id, l), List.mem_map_of_mem hl, ?_⟩
    rw [hs]
    exact Value.same_text_iff.2 rfl
  obtain ⟨e, he⟩ := Option.isSome_iff_exists.1 hsome
  obtain ⟨m, hm, rfl⟩ := List.mem_map.1 (List.mem_of_find?_eq_some he)
  have hsame := List.find?_some he
  rw [hs] at hsame
  have heq : l.id = m.id := hs.trans (Value.same_text_iff.1 hsame).symm
  rw [FieldIndex.get?, hid, he, hls.eq_of_id hl hm heq]
  rfl

theorem get?_index_isSome_iff (hls : IsOutline D ls) {s : String} :
    ((index ls).get? (.text s)).isSome = true ↔ .text s ∈ ls.map Located.id := by
  constructor
  · intro h
    rw [FieldIndex.get?, Option.isSome_map, List.find?_isSome] at h
    obtain ⟨e, he, hsame⟩ := h
    obtain ⟨m, hm, rfl⟩ := List.mem_map.1 he
    exact Value.same_text_iff.1 hsame ▸ List.mem_map_of_mem hm
  · intro h
    obtain ⟨l, hl, hid⟩ := List.mem_map.1 h
    rw [get?_index_of_mem hls hl hid.symm]
    rfl

theorem isSome_get?_iff (hls : IsOutline D ls) (hms : IsOutline E ms) (hl : l ∈ ls) :
    ((index ms).get? l.id).isSome = true ↔ l.id ∈ ms.map Located.id := by
  obtain ⟨s, hs⟩ := hls.exists_id hl
  rw [hs, get?_index_isSome_iff hms]

theorem isNone_get?_iff (hls : IsOutline D ls) (hms : IsOutline E ms) (hl : l ∈ ls) :
    ((index ms).get? l.id).isNone = true ↔ l.id ∉ ms.map Located.id := by
  rw [← isSome_get?_iff hls hms hl, Option.isNone_iff_eq_none, Option.not_isSome_iff_eq_none]

theorem mem_common_iff (hls : IsOutline D ls) (hms : IsOutline E ms) :
    l ∈ common ls ms ↔ l ∈ ls ∧ l.id ∈ ms.map Located.id := by
  rw [common, List.mem_filter]
  exact and_congr_right (isSome_get?_iff hls hms)

theorem common_eq_self (hls : IsOutline D ls) (hms : IsOutline E ms)
    (h : ∀ l ∈ ls, l.id ∈ ms.map Located.id) : common ls ms = ls :=
  List.filter_eq_self.2 fun l hl => (isSome_get?_iff hls hms hl).2 (h l hl)

theorem lacking_eq_nil_iff (hls : IsOutline D ls) (hms : IsOutline E ms) :
    lacking ls ms = [] ↔ ∀ l ∈ ls, l.id ∈ ms.map Located.id := by
  rw [lacking, List.filter_eq_nil_iff]
  refine forall₂_congr fun l hl => ?_
  rw [isNone_get?_iff hls hms hl, not_not]

theorem filter_index (p : Value × Located → Bool) (ls : List Located) :
    (index ls).filter p = index (ls.filter fun l => p (l.id, l)) := by
  rw [index, List.filter_map]
  rfl

theorem sharedWith_index (ls ms : List Located) :
    (index ls).sharedWith (index ms) = index (common ls ms) := filter_index _ ls

theorem mapM_index {α : Type} {f : Value × Located → Except Failure α} {g : Located → α}
    (h : ∀ l ∈ ls, f (l.id, l) = .ok (g l)) : (index ls).mapM f = .ok (ls.map g) := by
  have hall : ∀ e ∈ index ls, f e = .ok (g e.2) := List.forall_mem_map.2 h
  rw [Result.mapM_of_forall hall, index, List.map_map]
  rfl

/-! ### Lines -/

/-- What is said of a field whose attributes have changed. -/
def changedLine (l m : Located) : List String :=
  let names := Difference.attributes l.field.entriesOf m.field.entriesOf
  if names.isEmpty then []
  else ["Changed '" ++ m.field.textAt "key" ++ "': " ++ ", ".intercalate names]

/-- What is said of a field that has moved. -/
def movedLine (l m : Located) : String :=
  "Moved '" ++ m.field.textAt "key" ++ "' from position " ++ toString l.position ++ " to "
    ++ toString m.position

/-- What is said of a field that both outlines have. -/
def commonLines (ls ms : List Located) (l m : Located) : List String :=
  changedLine l m ++
    if !l.owner.equals m.owner || (index ls).rank l != (index ms).rank m then [movedLine l m] else []

theorem fieldLines_eq (hm : m.field.Fits) :
    fieldLines (index ls) (index ms) l m = .ok (commonLines ls ms l m) := by
  obtain ⟨key, -, hkey⟩ := hm.key
  unfold fieldLines commonLines changedLine movedLine
  dsimp only
  rw [Value.plain_of_text hkey]
  split
  · split <;> rfl
  · split <;> rfl

/-- What is said of a field that a schema has, if another outline has it too. -/
def linesOf (ls ms : List Located) (m : Located) : List String :=
  match (index ls).get? m.id with
  | some l => commonLines (common ls ms) (common ms ls) l m
  | none => []

def addedLine (l : Located) : String := "Added " ++ l.field.caption

def removedLine (l : Located) : String := "Removed " ++ l.field.caption

/-- What changed from one sound schema to another, told by their outlines. -/
theorem describeChanges_eq (hold : IsSound D old) (hnew : IsSound E new)
    (hls : outline (rootFields old) = ls) (hms : outline (rootFields new) = ms) :
    describeChanges old new = .ok ((lacking ms ls).map addedLine ++
      (lacking ls ms).map removedLine ++ (common ms ls).flatMap (linesOf ls ms)) := by
  have hls' : IsOutline D ls := hls ▸ hold.isOutline
  have hms' : IsOutline E ms := hms ▸ hnew.isOutline
  have hcaption : ∀ (start : String) (ks js : List Located), (∀ l ∈ ks, l.field.Fits) →
      ((index ks).filter fun e => ((index js).get? e.1).isNone).mapM (fun e => do
        return start ++ (← typeAndKey e.2.field)) =
          (.ok ((lacking ks js).map fun l => start ++ l.field.caption) :
            Except Failure (List String)) := by
    intro start ks js hks
    rw [filter_index]
    refine mapM_index fun l hl => ?_
    rw [(hks l (List.mem_of_mem_filter hl)).typeAndKey_eq]
    rfl
  have hversion : (old.getOrNull "version").equals (new.getOrNull "version") = true := by
    rw [hold.shape.version, hnew.shape.version]
    exact Json.equals_self (.scalar rfl (Value.isSome_integerText? (by decide)))
  unfold describeChanges
  rw [FieldIndex.ofSchema_eq hold, FieldIndex.ofSchema_eq hnew, hls, hms, Result.ok_bind,
    Result.ok_bind, hcaption _ _ _ hms'.fits, Result.ok_bind, hcaption _ _ _ hls'.fits, Result.ok_bind]
  dsimp only
  rw [sharedWith_index, sharedWith_index, mapM_index (g := linesOf ls ms), Result.ok_bind, hversion]
  · simp only [if_true, List.flatMap_def]
    exact congrArg Except.ok (List.append_nil _)
  · intro m hm
    have hfits := (hms'.filter _).fits m hm
    unfold linesOf
    dsimp only
    cases (index ls).get? m.id with
    | some l => exact fieldLines_eq hfits
    | none => rfl

/-! ### Fields that stay -/

/-- A field stays in its place, with the attributes that it had. -/
structure Stays (l m : Located) : Prop where
  id : l.id = m.id
  owner : l.owner = m.owner
  attributes : Difference.attributes l.field.entriesOf m.field.entriesOf = []

theorem changedLine_eq_nil_iff : changedLine l m = [] ↔
    Difference.attributes l.field.entriesOf m.field.entriesOf = [] := by
  unfold changedLine
  dsimp only
  split
  · next h => exact iff_of_true rfl (List.isEmpty_iff.1 h)
  · next h => exact iff_of_false nofun (mt List.isEmpty_iff.2 h)

theorem commonLines_eq_nil_iff (howner : IsOwner m.owner) : commonLines ls ms l m = [] ↔
    Difference.attributes l.field.entriesOf m.field.entriesOf = [] ∧ l.owner = m.owner ∧
      (index ls).rank l = (index ms).rank m := by
  rw [commonLines, List.append_eq_nil_iff, changedLine_eq_nil_iff]
  refine and_congr_right fun _ => ?_
  rw [← howner.equals_iff]
  split
  · next h =>
      refine iff_of_false (List.cons_ne_nil _ _) fun ⟨howner, hrank⟩ => ?_
      rw [howner, hrank] at h
      simp at h
  · next h => simpa using h

/-- Where all fields that two outlines have stay in their places, only additions and removals are told.
-/
theorem common_lines_of_stays (hls : IsOutline D ls) (hms : IsOutline E ms)
    (h : List.Forall₂ Stays (common ls ms) (common ms ls)) :
    (common ms ls).flatMap (linesOf ls ms) = [] := by
  have hlength := h.length_eq
  have howners : (common ls ms).map Located.owner = (common ms ls).map Located.owner :=
    map_eq_of_forall₂ h fun _ _ _ _ h => h.owner
  refine List.flatMap_eq_nil_iff.2 fun m hm => ?_
  obtain ⟨k, hk, rfl⟩ := List.getElem_of_mem hm
  have hk' : k < (common ls ms).length := hlength.symm ▸ hk
  have hstays : Stays (common ls ms)[k] (common ms ls)[k] := h.get hk' hk
  have hmem := (mem_common_iff hls hms).1 (List.getElem_mem hk')
  rw [linesOf, get?_index_of_mem hls hmem.1 hstays.id.symm]
  refine (commonLines_eq_nil_iff ((hms.filter _).owners _ hm)).2
    ⟨hstays.attributes, hstays.owner, ?_⟩
  exact rank_eq_of_owners howners (hls.filter _).rises (hms.filter _).rises (hls.filter _).owners hk' hk

/-- A field that stands in two whole outlines is told to have moved if its owner or its position has
changed. -/
theorem commonLines_outline_eq_nil_iff {ws : List Value} (hls : IsOutline D (outline vs))
    (hms : IsOutline E (outline ws)) (hl : l ∈ outline vs) (hm : m ∈ outline ws) :
    commonLines (outline vs) (outline ws) l m = [] ↔
      Difference.attributes l.field.entriesOf m.field.entriesOf = [] ∧ l.owner = m.owner ∧
        l.position = m.position := by
  rw [commonLines_eq_nil_iff (hms.owners m hm), rank_outlineFrom hls.rises hl (hls.owners l hl),
    rank_outlineFrom hms.rises hm (hms.owners m hm)]

end Schema

end FormDesigner
