import FormDesigner.Proofs.Field.Splicing
import FormDesigner.Proofs.Store.Committing

/-!
# Adding a field

Whether a field can be added is found out in two steps: its shape is checked on its own, and then its
ids and keys with those of the whole tree. Where it is to stand makes no difference, since one more
field adds what it owns to the tree wherever that is, and takes nothing away.
-/

namespace FormDesigner

open Work
open Command (AreSound)
open Value (gathered)
open FormDesigner.Field (ofValue)

namespace Store

variable {s t : Store} {field target : Value} {fields : List Value} {g : Field}

/-- A field has the right shape and can stand in a tree: its ids and keys, templates and children
included, occur once in it and nowhere in the tree. -/
structure Admits (s : Store) (field : Value) : Prop where
  shape : fieldProblems field = []
  ids : (Forest.ids [ofValue field]).Nodup
  keys : (Forest.keys [ofValue field]).Nodup
  freshIds : (Forest.ids s.forest).Disjoint (Forest.ids [ofValue field])
  freshKeys : (Forest.keys s.forest).Disjoint (Forest.keys [ofValue field])

/-- A sound tree admits a field exactly if the field fits and no id and no key occurs twice when it
stands at the end of the root. -/
theorem IsSound.admits_iff {D : Value.Domain} (hs : s.IsSound D) : s.Admits field ↔ field.Fits ∧
    ((Schema.rootFields s.schema ++ [field]).flatMap (gathered "id")).Nodup ∧
      ((Schema.rootFields s.schema ++ [field]).flatMap (gathered "key")).Nodup := by
  have hids : Forest.ids [ofValue field] = field.gathered "id" := by
    rw [← List.map_singleton, Forest.ids_map, List.flatMap_singleton]
  have hkeys : Forest.keys [ofValue field] = field.gathered "key" := by
    rw [← List.map_singleton, Forest.keys_map, List.flatMap_singleton]
  rw [List.flatMap_append, List.flatMap_append, List.flatMap_singleton, List.flatMap_singleton,
    List.nodup_append', List.nodup_append', and_iff_right hs.schema.ids,
    and_iff_right hs.schema.keys, ← hids, ← hkeys, ← Schema.ids_forest, ← Schema.keys_forest,
    ← fieldProblems_eq_nil_iff]
  constructor
  · intro ⟨shape, ids, keys, freshIds, freshKeys⟩
    exact ⟨shape, ⟨ids, freshIds⟩, keys, freshKeys⟩
  · intro ⟨shape, ⟨ids, freshIds⟩, keys, freshKeys⟩
    exact ⟨shape, ids, keys, freshIds, freshKeys⟩

/-- Whether a tree admits a field, as it can be computed. -/
def admits (s : Store) (field : Value) : Bool :=
  let fields := (Schema.rootFields s.schema ++ [field]).map ofValue
  (fieldProblems field).isEmpty && (duplicates (Forest.ids fields)).isEmpty &&
    (duplicates (Forest.keys fields)).isEmpty

theorem IsSound.admits_of_admits {D : Value.Domain} (hs : s.IsSound D)
    (h : s.admits field = true) : s.Admits field := by
  rw [admits, Bool.and_eq_true, Bool.and_eq_true, List.isEmpty_iff, List.isEmpty_iff,
    List.isEmpty_iff, Forest.ids_map, Forest.keys_map] at h
  obtain ⟨⟨hshape, hids⟩, hkeys⟩ := h
  have hfits := fieldProblems_eq_nil_iff.1 hshape
  have htexts : ∀ n, n = "id" ∨ n = "key" →
      ∀ w ∈ (Schema.rootFields s.schema ++ [field]).flatMap (gathered n), ∃ s, w = .text s := by
    intro n hn w hw
    obtain ⟨x, hx, hw⟩ := List.mem_flatMap.1 hw
    rcases List.mem_append.1 hx with hx | hx
    · exact (hs.fields x hx).2.gathered_text hn w hw
    · exact (List.mem_singleton.1 hx ▸ hfits).gathered_text hn w hw
  exact hs.admits_iff.2 ⟨hfits, (duplicates_eq_nil_iff (htexts "id" (.inl rfl))).1 hids,
    (duplicates_eq_nil_iff (htexts "key" (.inr rfl))).1 hkeys⟩

/-- The fields that a schema has at its root stand in a list. -/
theorem IsSound.fields_eq (hs : s.IsSound .json) : s.fields = .list (Schema.rootFields s.schema) :=
  (hs.schema.isIn.getOrNull trivial).eq_list hs.schema.shape.fields_eq

/-- Fields are those of a store with one more field somewhere among them or below. -/
structure IsEnlarged (s : Store) (field : Value) (fields : List Value) : Prop where
  each : ∀ x ∈ fields, x.IsJson ∧ x.Fits
  owns : ∀ n, n ≠ "children" → (fields.flatMap (gathered n)).Perm
    ((Schema.rootFields s.schema ++ [field]).flatMap (gathered n))

/-- Wherever a field is added, the tree is sound again exactly if it admits the field. -/
theorem IsEnlarged.areSound_iff (h : s.IsEnlarged field fields) (hs : s.IsSound .json)
    (hfits : field.Fits) : AreSound .json fields ↔ s.Admits field := by
  rw [hs.admits_iff, and_iff_right hfits, ← (h.owns "id" (by decide)).nodup_iff,
    ← (h.owns "key" (by decide)).nodup_iff]
  exact ⟨fun hsound => ⟨hsound.ids, hsound.keys⟩, fun ⟨hids, hkeys⟩ => ⟨h.each, hids, hkeys⟩⟩

theorem IsSound.isEnlarged_root (hs : s.IsSound .json) (hfield : field.IsJson ∧ field.Fits) :
    s.IsEnlarged field (Schema.rootFields s.schema ++ [field]) :=
  ⟨List.forall_mem_append.2 ⟨hs.fields, List.forall_mem_singleton.2 hfield⟩, fun _ _ => .refl _⟩

/-- A section that is found gets one more child, and the rest of the tree stays as it is. -/
theorem IsSound.insertChild_spliced (hs : s.IsSound .json) (field : Value)
    (hfound : s.find? target = some g) (hsection : g.isSection = true) :
    g.value.isSection = true ∧ Forest.Spliced g.value [g.value.withChild field]
      (Schema.rootFields s.schema) (Forest.insertChild target field s.forest) := by
  have hinsert : Forest.insertChild target field s.forest =
      Forest.append target field ((Schema.rootFields s.schema).map ofValue) := by
    rw [Store.find?] at hfound
    rw [Forest.insertChild, hfound]
    dsimp only
    rw [if_pos hsection, forest_eq]
  obtain ⟨w, hw, hwid, rfl, -, -⟩ := hs.find? hfound
  have hwsection : w.isSection = true := by rwa [Field.isSection, Field.value_ofValue] at hsection
  rw [Field.value_ofValue, hinsert]
  exact ⟨hwsection, Forest.append_spliced hs.fields hs.schema.ids hw hwid hwsection field⟩

theorem IsSound.isEnlarged_section (hs : s.IsSound .json) (hfound : s.find? target = some g)
    (hsection : g.isSection = true) (hfield : field.IsJson ∧ field.Fits) :
    s.IsEnlarged field (Forest.insertChild target field s.forest) := by
  obtain ⟨hvalue, hspliced⟩ := hs.insertChild_spliced field hfound hsection
  refine ⟨?_, fun n hn => ?_⟩
  · rw [forest_eq]
    exact Forest.insertChild_inherited (isInherited_sound _) hfield hs.fields
  · obtain ⟨before, after, hbefore, hafter⟩ := hspliced.gathered hn
    rw [hafter, List.flatMap_append, hbefore, List.flatMap_singleton, List.flatMap_singleton,
      Value.gathered_withChild hvalue hn]
    simp only [List.append_assoc]
    exact ((List.perm_append_comm).append_left _).append_left _

/-- A section has one more child in a store, and the rest of the tree is as it was. -/
structure Nests (s : Store) (target field : Value) (g : Field) (t : Store) : Prop where
  tree : Forest.Spliced g.value [g.value.withChild field] (Schema.rootFields s.schema)
    (Schema.rootFields t.schema)
  found : ∃ h, t.find? target = some h ∧ h.children = g.children ++ [ofValue field]

theorem IsSound.nests (hs : s.IsSound .json) (hfound : s.find? target = some g)
    (hsection : g.isSection = true)
    (hsound : AreSound .json (Forest.insertChild target field s.forest))
    (ht : t.schema = s.schema.put "fields" (.list (Forest.insertChild target field s.forest))) :
    s.Nests target field g t := by
  obtain ⟨hvalue, hspliced⟩ := hs.insertChild_spliced field hfound hsection
  have hroots := hs.rootFields_eq ht
  obtain ⟨w, -, hwid, rfl, -, -⟩ := hs.find? hfound
  rw [Field.value_ofValue] at hvalue hspliced
  have hid : Forest.hasId target (w.withChild field) = true := by
    rwa [Forest.hasId, Value.withChild, Value.getOrNull_put_of_ne (by decide)]
  refine ⟨by rwa [Field.value_ofValue, hroots], ofValue (w.withChild field), ?_, ?_⟩
  · rw [Store.find?, forest_eq, hroots]
    refine Forest.find?_of_hasId (fun x hx => (hsound.each x hx).2) hsound.ids ?_ hid
    exact hspliced.mem_nodes (.head _)
  · rw [Field.children_ofValue, Field.children_ofValue, Value.childValues_withChild hvalue,
      List.map_append, List.map_singleton]

end Store

/-- A command goes through, with what `Q` says of the store afterwards, exactly if `P` holds; else it
is refused and changes nothing. -/
structure Command.GoesThroughIf (P : Prop) (o : Outcome) (Q : Store → Prop) (s : Store)
    (r : Except Failure Reply) (t : Store) : Prop where
  changed : P → Q t
  answer : P → s.CanSave → r = .ok (.outcome o)
  refused : ¬ P → t = s ∧ ∃ o, r = .ok (.outcome o) ∧ o.ok = false

namespace Editing

variable {s : Store} {field target : Value} {fields : List Value} {g : Field}

open Command (GoesThroughIf)

private theorem goesThroughIf_of_malformed {o out : Outcome} {Q : Store → Prop}
    (h : malformed? field = some o) :
    GoesThroughIf (s.Admits field) out Q s (.ok (.outcome o)) s := by
  have hnot : ¬ s.Admits field := fun hadmits => by
    have hfits := fieldProblems_eq_nil_iff.1 hadmits.shape
    rw [malformed?_eq_none_iff.2 hfits] at h
    cases h
  exact ⟨fun hadmits => absurd hadmits hnot, fun hadmits => absurd hadmits hnot,
    fun _ => ⟨rfl, o, rfl, (isRefusal_malformed? h).ok⟩⟩

/-- Fields that one field was added to are committed if the tree admits it. -/
theorem commitChecked_enlarged (hs : s.IsSound .json) (h : s.IsEnlarged field fields)
    (hfits : field.Fits) (label : String) (id : Value) {Q : Store → Prop}
    (hQ : ∀ t, AreSound .json fields → s.Commits fields t → Q t) :
    (commitChecked fields label id).Ends s fun r t =>
      GoesThroughIf (s.Admits field) (.success label id) Q s (r.map .outcome) t := by
  have hiff := h.areSound_iff hs hfits
  refine (commitChecked_decides hs h.each label id).mono fun r t ⟨hcommits, hrefuses⟩ => ?_
  refine ⟨fun hadmits => ?_, fun hadmits hsave => ?_, fun hnot => ?_⟩
  · have hsound := hiff.2 hadmits
    exact hQ t hsound (hcommits hsound).commits
  · rw [(hcommits (hiff.2 hadmits)).answer hsave]
    rfl
  · obtain ⟨ht, o, rfl, hok⟩ := hrefuses (mt hiff.1 hnot)
    exact ⟨ht, o, rfl, hok⟩

theorem section?_eq_ok (hfound : s.find? target = some g) (hsection : g.isSection = true) :
    Editing.section? s target = .ok (.ok g) := by
  rw [section?, hfound]
  dsimp only
  rw [if_pos hsection]
  rfl

theorem addField_decides (hs : s.IsSound .json) (hfield : field.IsJson) :
    (addField field).Ends s fun r t =>
      GoesThroughIf (s.Admits field) (.success "add_field" (field.getOrNull "id"))
        (fun t => Schema.rootFields t.schema = Schema.rootFields s.schema ++ [field]) s
        (r.map .outcome) t := by
  unfold addField
  cases hshape : malformed? field with
  | some o => exact goesThroughIf_of_malformed hshape
  | none =>
      have hfits := malformed?_eq_none_iff.1 hshape
      dsimp only
      rw [ends_bind, ends_get, andThen_ok, ends_bind, ends_ofExcept, withRoot, hs.fields_eq]
      exact commitChecked_enlarged hs (hs.isEnlarged_root ⟨hfield, hfits⟩) hfits _ _
        fun t _ ht => hs.rootFields_eq ht.schema

theorem addChild_decides (hs : s.IsSound .json) (hfield : field.IsJson)
    (hfound : s.find? target = some g) (hsection : g.isSection = true) :
    (addChild target field).Ends s fun r t =>
      GoesThroughIf (s.Admits field) (.success "add_child" (field.getOrNull "id"))
        (s.Nests target field g) s (r.map .outcome) t := by
  unfold addChild
  rw [ends_bind, ends_get, andThen_ok, ends_bind, ends_ofExcept, section?_eq_ok hfound hsection,
    andThen_ok]
  dsimp only
  cases hshape : malformed? field with
  | some o => exact goesThroughIf_of_malformed hshape
  | none =>
      have hfits := malformed?_eq_none_iff.1 hshape
      exact commitChecked_enlarged hs (hs.isEnlarged_section hfound hsection ⟨hfield, hfits⟩) hfits _ _
        fun t hsound ht => hs.nests hfound hsection hsound ht.schema

end Editing

/-- Into a store whose documents JSON can carry, exactly those fields can be added that have the right
shape and none of whose ids and keys is taken. They come last at the root, or last among the children
of the section that was found. -/
theorem Store.Reachable.added_iff_admitted {s : Store} {capacity field : Value}
    (hs : s.Reachable (fun s c => c.Brings .json s) capacity) (hfield : field.IsJson) :
    (∃ r t, (Command.addField field).run.outcome s = (r, t) ∧
      Command.GoesThroughIf (s.Admits field) (.success "add_field" (field.getOrNull "id"))
        (fun t => Schema.rootFields t.schema = Schema.rootFields s.schema ++ [field]) s r t) ∧
    ∀ target g, s.find? target = some g → g.isSection = true →
      ∃ r t, (Command.addChild target field).run.outcome s = (r, t) ∧
        Command.GoesThroughIf (s.Admits field) (.success "add_child" (field.getOrNull "id"))
          (s.Nests target field g) s r t := by
  have hs := hs.isSound Value.Domain.isClosed_json fun _ _ h => h
  refine ⟨⟨_, _, rfl, (ends_map _).2 (Editing.addField_decides hs hfield)⟩, ?_⟩
  intro target g hfound hsection
  exact ⟨_, _, rfl, (ends_map _).2 (Editing.addChild_decides hs hfield hfound hsection)⟩

/-- A text field is added to a section that was added before. -/
theorem Store.added_to_section :
    let s := Store.bare.after [.addField (.sectionField "a" [])]
    (∃ t, (Command.addField (.textField "b")).run.outcome s =
        (.ok (.outcome (.success "add_field" (.text "b"))), t) ∧
      Schema.rootFields t.schema = Schema.rootFields s.schema ++ [.textField "b"]) ∧
    ∃ g t, s.find? (.text "a") = some g ∧
      (Command.addChild (.text "a") (.textField "b")).run.outcome s =
        (.ok (.outcome (.success "add_child" (.text "b"))), t) ∧
      s.Nests (.text "a") (.textField "b") g t := by
  intro s
  have edited : s.Reachable (fun s c => c.Brings .json s) (.int 2) :=
    Store.reachable_of_brings (List.forall_mem_singleton.2
      fun _ => Value.sectionField_isIn "a" (List.forall_mem_nil _))
  have hsave : s.CanSave := Store.canSave_of_no_storage (by decide +kernel)
  have hadmits : s.Admits (.textField "b") :=
    (edited.isSound Value.Domain.isClosed_json fun _ _ h => h).admits_of_admits
      (by decide +kernel)
  have hsection : ((s.find? (.text "a")).map Field.isSection) = some true := by decide +kernel
  obtain ⟨g, hfound, hg⟩ := Option.map_eq_some_iff.1 hsection
  obtain ⟨⟨r, t, hroot, hadded⟩, hchild⟩ :=
    Store.Reachable.added_iff_admitted edited (Value.textField_isIn "b")
  obtain ⟨r', t', hrun, hnested⟩ := hchild _ g hfound hg
  have hid : (Value.textField "b").getOrNull "id" = .text "b" := by
    rw [Value.getOrNull, Value.textField, Value.ofFields, Value.get?_map]
    exact congrArg (·.getD .null) (Entries.get?_cons_self ..)
  obtain rfl := hadded.answer hadmits hsave
  obtain rfl := hnested.answer hadmits hsave
  rw [hid] at hroot hrun
  exact ⟨⟨t, hroot, hadded.changed hadmits⟩, g, t', hfound, hrun, hnested.changed hadmits⟩

/-- An array whose items are sections. -/
def Value.arrayOfSections : Value :=
  .ofFields
    [("id", .text "a"), ("key", .text "a"), ("type", .text "array"), ("label", .text "a"),
      ("of", .sectionField "t" [])]

theorem Value.arrayOfSections_isJson : Value.arrayOfSections.IsJson := by
  refine Value.IsIn.ofFields (by simp) ?_
  simp only [List.forall_mem_cons]
  exact ⟨.text _, .text _, .text _, .text _,
    Value.sectionField_isIn "t" (List.forall_mem_nil _), List.forall_mem_nil _⟩

/-- The section that an array repeats is in the tree, but is not found there, so nothing can be added
to it. -/
theorem Store.not_added_to_repeated_section :
    let s := Store.bare.after [.addField .arrayOfSections]
    s.Reachable (fun s c => c.Brings .json s) (.int 2) ∧
      (∃ g ∈ Forest.preorder true s.forest, g.id.equals (.text "t") = true ∧ g.isSection = true) ∧
      s.Admits (.textField "b") ∧
      ∃ o, ((Command.addChild (.text "t") (.textField "b")).run.outcome s).1 = .ok (.outcome o) ∧
        o.code = .notFound ∧ o.ok = false := by
  intro s
  have edited : s.Reachable (fun s c => c.Brings .json s) (.int 2) :=
    Store.reachable_of_brings (List.forall_mem_singleton.2 fun _ => Value.arrayOfSections_isJson)
  have hlisted : ((Forest.preorder true s.forest).any fun g =>
      g.id.equals (.text "t") && g.isSection) = true := by decide +kernel
  have hmissing : s.find? (.text "t") = none :=
    Option.isNone_iff_eq_none.1 (by decide +kernel)
  have hrun : (Command.addChild (.text "t") (.textField "b")).run.Ends s fun r _ => r =
      .ok (.outcome (.failure .notFound "No field with id 't'" (.text "t") [])) := by
    refine (ends_map _).2 ?_
    unfold Editing.addChild
    rw [ends_bind, ends_get, andThen_ok, Editing.section?, hmissing]
    rfl
  refine ⟨edited, ?_, ?_, _, hrun, rfl, rfl⟩
  · obtain ⟨g, hg, h⟩ := List.any_eq_true.1 hlisted
    exact ⟨g, hg, Bool.and_eq_true_iff.1 h⟩
  · exact (edited.isSound Value.Domain.isClosed_json fun _ _ h => h).admits_of_admits
      (by decide +kernel)

end FormDesigner
