import FormDesigner.Proofs.Field.Rearranging
import FormDesigner.Proofs.Store.Adding

/-!
# What an edit leaves alone

Every edit rebuilds the whole tree, but it changes one place of it: what it updates or removes, or the
children of one section. The fields that hold this place change with it, and what stood in it may be
lost. All others are found by their ids after the edit exactly as they were found before.
-/

namespace FormDesigner

open Command (Rewrites)
open FormDesigner.Field (ofValue)

/-- Whether a field has an id, or is a section with a field below it that has the id. -/
def Field.holds (id : Value) (f : Field) : Bool := (Forest.findField? id f).isSome

theorem Field.holds_iff {id v : Value} :
    (ofValue v).holds id = true ↔ ∃ w ∈ v.nodes, Forest.hasId id w = true := by
  rw [holds, Forest.findField?_ofValue, Option.isSome_map, List.find?_isSome]

theorem Field.notMem_nodes {id v w : Value} (h : (ofValue v).holds id = false)
    (hw : Forest.hasId id w = true) : w ∉ v.nodes := fun hmem =>
  Bool.false_ne_true (h.symm.trans (holds_iff.2 ⟨w, hmem, hw⟩))

/-- No field has null for an id. -/
theorem Store.IsSound.find?_null {D : Value.Domain} {s : Store} (hs : s.IsSound D) :
    s.find? .null = none := by
  cases hfound : s.find? .null with
  | none => rfl
  | some f =>
      obtain ⟨name, hname⟩ := hs.exists_text hfound
      cases hname

/-- A field with an id is neither changed nor lost by an edit. It holds neither what is updated or
removed nor a section whose children change, and does not stand in what is updated or removed. -/
def Command.Spares (s : Store) (x : Value) (f : Field) : Command → Prop
  | .addField _ | .moveField _ _ => True
  | .addChild target _ | .moveChild target _ _ => f.holds target = false
  | .paste target => target.isNull = false → f.holds target = false
  | .updateField id _ | .removeField id =>
      f.holds id = false ∧ ∀ g, s.find? id = some g → g.holds x = false
  | _ => False

namespace Command

variable {s t : Store} {c : Command} {x u target : Value} {fields : List Value}

/-- An edit leaves the schema as it is or gives it other fields. -/
theorem Course.edits {r : Except Failure Reply} {f : Field} (h : c.Course s r t)
    (spares : c.Spares s x f) : t.schema = s.schema ∨
      ∃ fields, Rewrites s c fields ∧ t.schema = s.schema.put "fields" (.list fields) := by
  cases h with
  | refused | copied => exact .inl rfl
  | aside kept => exact .inl kept.schema_eq
  | committed replaces _ becomes =>
      cases replaces with
      | rewrites h => exact .inr ⟨_, h, becomes.schema_eq⟩
      | importSchema => exact spares.elim
  | @turned side => cases side <;> exact spares.elim
  | restored | emptied => exact spares.elim

/-- Without the section that it should go to, nothing is inserted. -/
theorem insertChild_eq_self (h : ∀ g, s.find? target = some g → ¬ g.isSection = true)
    (field : Value) : Forest.insertChild target field s.forest = Schema.rootFields s.schema := by
  have hroots : s.forest.toValues = Schema.rootFields s.schema := by
    rw [Store.forest_eq, Forest.toValues_map_ofValue]
  unfold Forest.insertChild
  split
  · rename_i g hfound
    rw [if_neg (h g hfound), hroots]
  · exact hroots

section Kept

variable (hu : u ∈ (Schema.rootFields s.schema).flatMap Value.nodes)
include hu

/-- A section that gets other children loses none of the fields below it if it keeps its children. -/
private theorem mem_nodes_below {w : Value} {cs : List Value} (hw : w.isSection = true)
    (hsub : w.childValues ⊆ cs)
    (hspliced : Forest.Spliced w [w.put "children" (.list cs)] (Schema.rootFields s.schema) fields)
    (houtside : w ∉ u.nodes) : u ∈ fields.flatMap Value.nodes := by
  refine hspliced.keeps hu houtside fun hin => ?_
  rw [Value.nodes_eq] at hin
  rcases List.mem_cons.1 hin with rfl | hin
  · exact absurd (Value.mem_nodes_self u) houtside
  · obtain ⟨c, hc, huc⟩ := List.mem_flatMap.1 hin
    rw [List.flatMap_singleton, Value.nodes_eq, Value.childValues_put_children hw]
    exact .tail _ (List.mem_flatMap.2 ⟨c, hsub hc, huc⟩)

variable (hs : s.IsSound .json)
include hs

private theorem mem_nodes_insertChild (apart : (ofValue u).holds target = false) (field : Value) :
    u ∈ (Forest.insertChild target field s.forest).flatMap Value.nodes := by
  by_cases hsection : ∃ g, s.find? target = some g ∧ g.isSection = true
  · obtain ⟨g, hfound, hg⟩ := hsection
    obtain ⟨hw, hspliced⟩ := hs.insertChild_spliced field hfound hg
    obtain ⟨w, -, hwid, rfl, -, -⟩ := hs.find? hfound
    rw [Field.value_ofValue] at hw hspliced
    exact mem_nodes_below hu hw (List.subset_append_left _ _) hspliced
      (Field.notMem_nodes apart hwid)
  · rwa [insertChild_eq_self fun g hg hgs => hsection ⟨g, hg, hgs⟩]

/-- Among the fields that an edit puts in place are all that it spares. -/
theorem Rewrites.mem_nodes (h : Rewrites s c fields) (hx : Forest.hasId x u = true)
    (spares : c.Spares s x (ofValue u)) : u ∈ fields.flatMap Value.nodes := by
  have hroot : ∀ {fs : List Value} {field : Value}, s.fields = .list fs →
      u ∈ (fs ++ [field]).flatMap Value.nodes := by
    intro fs field root
    rw [List.flatMap_append, ← Store.rootFields_of_fields root]
    exact List.mem_append_left _ hu
  -- What has the id is not below a field that does not hold it.
  have hbelow : ∀ {w : Value}, (ofValue w).holds x = false → u ∉ w.nodes := fun hw hmem =>
    Field.notMem_nodes hw hx hmem
  cases h with
  | addField _ root => exact hroot root
  | @addChild target field => exact mem_nodes_insertChild hu hs spares field
  | @updateField id updated _ _ _ found =>
      obtain ⟨w, hw, hwid, rfl, -, -⟩ := hs.find? found
      obtain ⟨houtside, hinside⟩ := spares
      rw [Store.forest_eq]
      have hspliced := Forest.replace_spliced hs.fields hs.schema.ids hw hwid updated
      exact hspliced.keeps hu (Field.notMem_nodes houtside hwid)
        fun hin => absurd hin (hbelow (hinside _ found))
  | @removeField id =>
      obtain ⟨houtside, hinside⟩ := spares
      rw [Store.forest_eq]
      cases found : s.find? id with
      | none =>
          rw [Store.find?, Store.forest_eq] at found
          rwa [Forest.remove_eq_self hs.fields found]
      | some g =>
          obtain ⟨w, hw, hwid, rfl, -, -⟩ := hs.find? found
          have hspliced := Forest.remove_spliced hs.fields hs.schema.ids hw hwid
          exact hspliced.keeps hu (Field.notMem_nodes houtside hwid)
            fun hin => absurd hin (hbelow (hinside _ found))
  | @moveField source target i j source_lt target_lt =>
      rw [Store.forest_eq, List.length_map] at source_lt target_lt
      rw [Store.forest_eq, Forest.toValues_map_ofValue]
      exact ((Forest.moved_perm _ source_lt target_lt).flatMap_right _).mem_iff.2 hu
  | @moveChild owner source target g i j found isSection source_lt target_lt =>
      obtain ⟨w, hw, hwid, rfl, -, -⟩ := hs.find? found
      rw [Field.isSection, Field.value_ofValue] at isSection
      rw [Field.children_ofValue, List.length_map] at source_lt target_lt
      rw [Store.forest_eq, Field.children_ofValue, Forest.toValues_map_ofValue]
      exact mem_nodes_below hu isSection (Forest.moved_perm _ source_lt target_lt).symm.subset
        (Forest.replaceChildren_spliced hs.fields hs.schema.ids hw hwid isSection _)
        (Field.notMem_nodes spares hwid)
  | pasteRoot _ _ root => exact hroot root
  | @pasteChild content field target =>
      cases target with
      | null =>
          rwa [insertChild_eq_self fun g hg => by rw [hs.find?_null] at hg; cases hg]
      | _ => exact mem_nodes_insertChild hu hs (spares rfl) field

end Kept

end Command

/-- Looking a field up changes nothing. -/
theorem Store.outcome_getField (s : Store) (x : Value) : (Command.getField x).run.outcome s =
    (.ok (.value (.ofOption ((s.find? x).map Field.value))), s) := rfl

/-- Whatever an edit of a store answers, each field that it spares is looked up after it with the
result that it had before. -/
theorem Store.Reachable.getField_spared {s t : Store} {capacity x : Value} {c : Command}
    {f : Field} {r : Except Failure Reply}
    (hs : s.Reachable (fun s c => c.Brings .json s) capacity) (proper : c.IsProper)
    (found : s.find? x = some f) (spares : c.Spares s x f) (ran : c.run.outcome s = (r, t)) :
    (Command.getField x).run.outcome s = (.ok (.value f.value), s) ∧
      (Command.getField x).run.outcome t = (.ok (.value f.value), t) := by
  have hs := hs.isSound Value.Domain.isClosed_json fun _ _ h => h
  have hlooked : ∀ u : Store, u.find? x = some f →
      (Command.getField x).run.outcome u = (.ok (.value f.value), u) := by
    intro u hu
    rw [outcome_getField, hu]
    rfl
  refine ⟨hlooked s found, hlooked t ?_⟩
  rcases ((c.run_ends s).outcome ran).edits spares with hsame | ⟨fields, hrewrites, hschema⟩
  · rw [Store.find?, Store.forest_eq, Schema.rootFields, hsame]
    rwa [Store.find?, Store.forest_eq, Schema.rootFields] at found
  · obtain ⟨w, hw, hwid, rfl, -, -⟩ := hs.find? found
    have hsound := hrewrites.areSound hs.proper (proper.brings s)
    rw [Store.find?, Store.forest_eq, hs.rootFields_eq hschema]
    exact Forest.find?_of_hasId (fun v hv => (hsound.each v hv).2) hsound.ids
      (hrewrites.mem_nodes hw hs hwid spares) hwid

/-- A field in a section gets another label, and the field beside it stays as it is. -/
theorem Store.sibling_spared_by_update :
    let s := Store.bare.after [.addField (.sectionField "a" [.textField "b", .textField "c"])]
    let c := Command.updateField (.text "b") (.ofFields [("label", .text "B")])
    let t := (c.run.outcome s).2
    t.history.past.length = 2 ∧ ∃ f, s.find? (.text "c") = some f ∧ c.Spares s (.text "c") f ∧
      (Command.getField (.text "c")).run.outcome s = (.ok (.value f.value), s) ∧
        (Command.getField (.text "c")).run.outcome t = (.ok (.value f.value), t) := by
  intro s c t
  have edited : s.Reachable (fun s c => c.Brings .json s) (.int 2) := by
    refine Store.reachable_of_brings (List.forall_mem_singleton.2 fun _ => ?_)
    refine Value.sectionField_isIn "a" ?_
    simp only [List.forall_mem_cons]
    exact ⟨Value.textField_isIn "b", Value.textField_isIn "c", List.forall_mem_nil _⟩
  have proper : c.IsProper := by
    refine Value.IsIn.ofFields (by simp) ?_
    exact List.forall_mem_singleton.2 (.text _)
  have hlooked : (s.find? (.text "c")).map (Field.holds (.text "b")) = some false := by
    decide +kernel
  have hpatched : ∀ g ∈ s.find? (.text "b"), g.holds (.text "c") = false := by
    have h : (s.find? (.text "b")).all (fun g => !g.holds (.text "c")) = true := by decide +kernel
    exact fun g hg => by simpa [Option.mem_def.1 hg] using h
  obtain ⟨f, found, hf⟩ := Option.map_eq_some_iff.1 hlooked
  have spares : c.Spares s (.text "c") f := ⟨hf, hpatched⟩
  refine ⟨by decide +kernel, f, found, spares, ?_⟩
  exact Store.Reachable.getField_spared edited proper found spares rfl

end FormDesigner
