import FormDesigner.Form.Validation
import FormDesigner.Proofs.Result
import FormDesigner.Proofs.Schema.Document

/-!
# Where the fields of a form are checked

A form is checked at spots. Each stands for a field together with the values that the field sees and
the name that its message is noted under. A spot leads to others where the field is shown: a section
leads to its children, an array leads to its template, once for each of its items. The walk over a
form visits all of these spots, each before those that it leads to, and notes what is wrong there.
-/

namespace FormDesigner

namespace Form

open Expression (LimitSource)
open FormDesigner.Field (ofValue)
open Result

/-- A field where it is checked. The names of its children begin with `start`. -/
structure Spot where
  field : Value
  values : Entries
  name : String
  start : String

/-- The key of a field. -/
def keyText (field : Value) : String := ((field.getOrNull "key").asText?).getD ""

theorem keyText_eq {field : Value} {key : String} (h : field.getOrNull "key" = .text key) :
    keyText field = key := by
  rw [keyText, h]
  rfl

/-- The name of an item of an array. -/
def itemName (name : String) (i : Nat) : String := name ++ "[" ++ toString i ++ "]"

namespace Spot

/-- A child of the section at a spot. -/
def child (s : Spot) (field : Value) : Spot :=
  ⟨field, s.values, s.start ++ keyText field, s.start⟩

/-- What the array at a spot holds. -/
def items (s : Spot) : List Value :=
  if Field.hasComputed s.field then []
  else (((Entries.get? s.values (s.field.getOrNull "key")).getD .null).asSequence?).getD []

/-- An item of the array at a spot, with the template as its field. -/
def item? (s : Spot) (template : Value) (entry : Value × Nat) : Option Spot :=
  match itemValues template entry.1 s.values with
  | .ok values => some ⟨template, values, itemName s.name entry.2, itemName s.name entry.2 ++ "."⟩
  | .error _ => none

variable (limits : LimitSource)

/-- The spots that a spot leads to. -/
def parts (s : Spot) : List Spot :=
  match isShown limits s.field s.values with
  | .ok true =>
    s.field.childValues.map s.child
      ++ s.field.templateValue?.toList.flatMap fun t => s.items.zipIdx.filterMap (s.item? t)
  | _ => []

/-- What is wrong at a spot. -/
def message? (s : Spot) : Except Failure (Option String) := fieldMessage? limits s.field s.values

variable {limits} {s t : Spot}

theorem item?_eq_some {template : Value} {entry : Value × Nat}
    (h : s.item? template entry = some t) : t.field = template ∧
      t.name = itemName s.name entry.2 ∧ t.start = itemName s.name entry.2 ++ "." := by
  unfold item? at h
  split at h
  · obtain rfl := Option.some.inj h
    exact ⟨rfl, rfl, rfl⟩
  · cases h

/-- A spot leads to the children of a section and to the items of an array, if it is shown. -/
theorem part_cases (h : t ∈ s.parts limits) : isShown limits s.field s.values = .ok true ∧
    ((s.field.isSection = true ∧ ∃ c ∈ s.field.childValues, t = s.child c) ∨
      ∃ u ∈ s.field.templateValue?, ∃ i, t.field = u ∧
        t.name = itemName s.name i ∧ t.start = itemName s.name i ++ ".") := by
  unfold parts at h
  split at h
  · refine ⟨‹_›, ?_⟩
    rcases List.mem_append.1 h with h | h
    · obtain ⟨c, hc, rfl⟩ := List.mem_map.1 h
      exact .inl ⟨(Value.mem_childValues hc).1, c, hc, rfl⟩
    · obtain ⟨u, hu, h⟩ := List.mem_flatMap.1 h
      obtain ⟨entry, -, h⟩ := List.mem_filterMap.1 h
      exact .inr ⟨u, Option.mem_toList.1 hu, entry.2, item?_eq_some h⟩
  · exact absurd h List.not_mem_nil

theorem sizeOf_part_lt (h : t ∈ s.parts limits) : sizeOf t.field < sizeOf s.field := by
  obtain ⟨-, ⟨-, c, hc, rfl⟩ | ⟨u, hu, i, rfl, -⟩⟩ := part_cases h
  · exact Value.sizeOf_childValue_lt hc
  · exact Value.sizeOf_templateValue_lt hu

/-- A spot and all spots that it leads to, in the order of the walk. -/
def walk (limits : LimitSource) (s : Spot) : List Spot :=
  s :: (s.parts limits).attach.flatMap fun t => walk limits t.1
termination_by sizeOf s.field
decreasing_by exact sizeOf_part_lt t.2

theorem walk_eq (s : Spot) : s.walk limits = s :: (s.parts limits).flatMap (walk limits) := by
  rw [walk]
  refine congrArg (s :: ·) ?_
  rw [← List.flatMap_map Subtype.val (walk limits), List.attach_map_subtype_val]

end Spot

/-- The spots that the roots of a form are checked at. -/
def roots (schema : Value) (values : Entries) : List Spot :=
  (Schema.rootFields schema).map fun f => ⟨f, values, keyText f, ""⟩

/-- All spots of a form, in the order of the walk. -/
def spots (limits : LimitSource) (schema : Value) (values : Entries) : List Spot :=
  (roots schema values).flatMap (Spot.walk limits)

/-- A spot of a form: one of a field at the root, or one that another spot of the form leads to. -/
inductive Visited (limits : LimitSource) (schema : Value) (values : Entries) : Spot → Prop
  | root {s : Spot} (root : s ∈ roots schema values) : Visited limits schema values s
  | inside {s t : Spot} (owner : Visited limits schema values s) (part : t ∈ s.parts limits) :
      Visited limits schema values t

variable {limits : LimitSource} {schema : Value} {values : Entries} {s t : Spot}

theorem Spot.mem_walk_self (s : Spot) : s ∈ s.walk limits := by
  rw [walk_eq]
  exact List.mem_cons_self

theorem Spot.mem_walk_cases (h : t ∈ s.walk limits) :
    t = s ∨ ∃ part ∈ s.parts limits, t ∈ part.walk limits := by
  rw [walk_eq, List.mem_cons, List.mem_flatMap] at h
  exact h

theorem Spot.walk_subset_of_part (h : t ∈ s.parts limits) : t.walk limits ⊆ s.walk limits := by
  rw [walk_eq s]
  exact fun u hu => List.mem_cons_of_mem _ (List.mem_flatMap.2 ⟨t, h, hu⟩)

/-- A walk goes on from all of its spots. -/
theorem Spot.walk_subset (h : t ∈ s.walk limits) : t.walk limits ⊆ s.walk limits := by
  induction s using Spot.walk.induct limits with
  | case1 s ih =>
      rcases mem_walk_cases h with rfl | ⟨part, hpart, h⟩
      · exact List.Subset.refl _
      · exact List.Subset.trans (ih ⟨part, hpart⟩ h) (walk_subset_of_part hpart)

theorem Visited.of_mem_walk (hs : Visited limits schema values s) (h : t ∈ s.walk limits) :
    Visited limits schema values t := by
  induction s using Spot.walk.induct limits with
  | case1 s ih =>
      rcases Spot.mem_walk_cases h with rfl | ⟨part, hpart, h⟩
      · exact hs
      · exact ih ⟨part, hpart⟩ (hs.inside hpart) h

/-- The walk visits the spots of a form and no others. -/
theorem mem_spots_iff : s ∈ spots limits schema values ↔ Visited limits schema values s := by
  constructor
  · intro h
    obtain ⟨root, hroot, h⟩ := List.mem_flatMap.1 h
    exact Visited.of_mem_walk (.root hroot) h
  · intro h
    induction h with
    | @root s hroot => exact List.mem_flatMap.2 ⟨s, hroot, s.mem_walk_self⟩
    | @inside s t _ part ih =>
        obtain ⟨root, hroot, hs⟩ := List.mem_flatMap.1 ih
        have ht := Spot.walk_subset hs (Spot.walk_subset_of_part part t.mem_walk_self)
        exact List.mem_flatMap.2 ⟨root, hroot, ht⟩

theorem Visited.fits (h : Visited limits schema values s) (hshape : Schema.HasShape schema) :
    s.field.Fits := by
  induction h with
  | root hroot =>
      obtain ⟨f, hf, rfl⟩ := List.mem_map.1 hroot
      exact hshape.fits f hf
  | inside _ part ih =>
      obtain ⟨-, ⟨-, c, hc, rfl⟩ | ⟨u, hu, i, rfl, -⟩⟩ := Spot.part_cases part
      · exact ih.children c hc
      · exact ih.template _ hu

/-! ### The walk notes what is wrong -/

/-- Notes what is wrong at a spot. -/
def noteAt (limits : LimitSource) (r : Report) (s : Spot) : Except Failure Report := do
  r.note (.text s.name) (← s.message? limits)

variable {r : Report} {v template : Value}

theorem demandMap_of_fits (h : v.Fits) : Field.demandMap v = .ok () := if_pos h.isMap

theorem lookUp_of_fits (h : v.Fits) (values : Entries) :
    lookUp values (v.getOrNull "key") =
      .ok ((Entries.get? values (v.getOrNull "key")).getD .null) := by
  obtain ⟨key, -, hkey⟩ := h.key
  rw [hkey]
  rfl

theorem demandItems_of_itemsOf? {list : Value} {xs : List Value}
    (h : Shape.itemsOf? list = some xs) : Field.demandItems list = .ok () := by
  unfold Field.demandItems
  rcases Value.itemsOf?_eq_some h with rfl | rfl | rfl
  · split <;> rfl
  · split <;> rfl
  · split <;> rfl

theorem demandItems_of_fits (h : v.Fits) (hsection : v.isSection = true) :
    Field.demandItems (v.getOrNull "children") = .ok () := by
  cases h with
  | @intro es type kind own children template =>
      obtain rfl := (Value.isSection_map_iff kind).1 hsection
      obtain ⟨list, xs, hlist, hxs, -⟩ :=
        (Value.Fits.intro kind own children template).exists_children kind
      rw [Value.getOrNull, Value.get?_map, hlist, Option.getD_some]
      exact demandItems_of_itemsOf? hxs

/-- Every item of an array sees some values. -/
theorem exists_itemValues (h : template.Fits) (item : Value) (values : Entries) :
    ∃ inner, itemValues template item values = .ok inner := by
  unfold itemValues
  split
  · split
    · exact ⟨_, rfl⟩
    · exact ⟨_, rfl⟩
  · obtain ⟨key, -, hkey⟩ := h.key
    rw [demandMap_of_fits h, hkey]
    exact ⟨_, rfl⟩

theorem fieldMessage?_of_isShown_eq_error {f : Failure} (h : v.Fits)
    (hshown : isShown limits v values = .error f) : fieldMessage? limits v values = .error f := by
  rw [fieldMessage?, demandMap_of_fits h, ok_bind, hshown]
  rfl

theorem fieldMessage?_of_hidden (h : v.Fits) (hshown : isShown limits v values = .ok false) :
    fieldMessage? limits v values = .ok none := by
  rw [fieldMessage?, demandMap_of_fits h, ok_bind, hshown]
  rfl

theorem innerName_eq (h : v.Fits) (start : String) :
    innerName start v = .ok (.text (start ++ keyText v)) := by
  obtain ⟨key, -, hkey⟩ := h.key
  rw [innerName, keyText_eq hkey, hkey]
  rfl

/-- A field is visited as its walk says. -/
def WalksAs (limits : LimitSource) (v : Value) : Prop :=
  ∀ values name start r, visit limits values r (.text name) start (ofValue v) =
    (Spot.walk limits ⟨v, values, name, start⟩).foldlM (noteAt limits) r

theorem visitAll_eq {cs : List Value} (hcs : ∀ c ∈ cs, c.Fits ∧ WalksAs limits c) (s : Spot)
    (r : Report) : visitAll limits s.values r s.start (cs.map ofValue) =
      ((cs.map s.child).flatMap (Spot.walk limits)).foldlM (noteAt limits) r := by
  induction cs generalizing r with
  | nil => rw [List.map_nil, visitAll]; rfl
  | cons c cs ih =>
      obtain ⟨⟨hc, hwalks⟩, hcs⟩ := List.forall_mem_cons.1 hcs
      rw [List.map_cons, visitAll, Field.value_ofValue, demandMap_of_fits hc, ok_bind,
        innerName_eq hc, ok_bind, hwalks, List.map_cons, List.flatMap_cons, List.foldlM_append]
      exact bind_congr fun r => ih hcs r

theorem visitItems_eq (ht : template.Fits) (hwalks : WalksAs limits template) (s : Spot)
    (items : List Value) (r : Report) :
    visitItems limits s.values r (.text s.name) (some (ofValue template)) items =
      ((items.zipIdx.filterMap (s.item? template)).flatMap (Spot.walk limits)).foldlM
        (noteAt limits) r := by
  rw [visitItems]
  generalize items.zipIdx = entries
  induction entries generalizing r with
  | nil => rfl
  | cons entry entries ih =>
      obtain ⟨item, i⟩ := entry
      obtain ⟨inner, hinner⟩ := exists_itemValues ht item s.values
      have hitem : s.item? template (item, i) =
          some ⟨template, inner, itemName s.name i, itemName s.name i ++ "."⟩ := by
        rw [Spot.item?, hinner]
      have hvisit : (do
            let name := (← (Value.text s.name).plain) ++ "[" ++ toString i ++ "]"
            let values ← itemValues (ofValue template).value item s.values
            visit limits values r (.text name) (name ++ ".") (ofValue template)) =
          (Spot.walk limits ⟨template, inner, itemName s.name i, itemName s.name i ++ "."⟩).foldlM
            (noteAt limits) r := by
        rw [Field.value_ofValue, hinner]
        exact hwalks _ _ _ _
      rw [List.foldlM_cons, List.filterMap_cons_some hitem, List.flatMap_cons, List.foldlM_append,
        ← hvisit]
      exact bind_congr fun r => ih r

/-- What a shown field owns is visited part by part. -/
theorem visitParts_eq (h : v.Fits) {s : Spot} (hs : s.field = v)
    (hshown : isShown limits v s.values = .ok true)
    (hchildren : ∀ c ∈ v.childValues, c.Fits ∧ WalksAs limits c)
    (htemplate : ∀ t ∈ v.templateValue?, t.Fits ∧ WalksAs limits t) (r : Report) :
    (if v.isSection then do
      Field.demandItems (v.getOrNull "children")
      visitAll limits s.values r s.start (v.childValues.map ofValue)
    else
      match (v.templateValue?.map ofValue).filter
          fun t => t.value.isMap && !Field.hasComputed v with
      | none => return r
      | some _ => do
        match (← lookUp s.values (v.getOrNull "key")).asSequence? with
        | none => return r
        | some items =>
          visitItems limits s.values r (.text s.name) (v.templateValue?.map ofValue) items) =
      ((s.parts limits).flatMap (Spot.walk limits)).foldlM (noteAt limits) r := by
  subst hs
  rw [Spot.parts, hshown]
  dsimp only
  by_cases hsection : s.field.isSection = true
  · rw [if_pos hsection, demandItems_of_fits h hsection, Value.templateValue?_of_isSection hsection,
      Option.toList_none, List.flatMap_nil, List.append_nil]
    exact visitAll_eq hchildren s r
  have hnone : s.field.childValues = [] := if_neg hsection
  rw [if_neg hsection, hnone, List.map_nil, List.nil_append]
  cases ht : s.field.templateValue? with
  | none => rfl
  | some t =>
      obtain ⟨hfits, hwalks⟩ := htemplate t ht
      rw [Option.toList_some, List.flatMap_singleton, Spot.items, Option.map_some]
      cases hcomputed : Field.hasComputed s.field with
      | true =>
          rw [Option.filter_some_neg (by simp), if_pos rfl]
          rfl
      | false =>
          rw [Option.filter_some_pos (by simp [hfits.isMap]), if_neg (by decide), lookUp_of_fits h]
          simp only [ok_bind]
          cases (((Entries.get? s.values (s.field.getOrNull "key")).getD .null).asSequence?) with
          | none => rfl
          | some items => exact visitItems_eq hfits hwalks s items r

/-- By induction on what the field owns. What is wrong with the field is noted first; whatever it
is, the walk goes on as long as the field is shown. -/
theorem walksAs_of_fits (h : v.Fits) : WalksAs limits v := by
  induction v using Value.owned_induction with
  | node v ihChildren ihTemplate =>
      have hchildren : ∀ c ∈ v.childValues, c.Fits ∧ WalksAs limits c := fun c hc =>
        ⟨h.children c hc, ihChildren c hc (h.children c hc)⟩
      have htemplate : ∀ t ∈ v.templateValue?, t.Fits ∧ WalksAs limits t := fun t ht =>
        ⟨h.template t ht, ihTemplate t ht (h.template t ht)⟩
      intro values name start r
      rw [Field.ofValue_eq, visit, demandMap_of_fits h, ok_bind, Spot.walk_eq, List.foldlM_cons]
      cases hshown : isShown limits v values with
      | error f =>
          rw [noteAt, Spot.message?, fieldMessage?_of_isShown_eq_error h hshown]
          rfl
      | ok shown =>
          cases shown with
          | false =>
              have hnone : Spot.parts limits ⟨v, values, name, start⟩ = [] := by
                rw [Spot.parts, hshown]
              rw [noteAt, Spot.message?, fieldMessage?_of_hidden h hshown, hnone]
              exact (bind_pure _).symm
          | true =>
              rw [ok_bind, if_neg (by decide), noteAt, Spot.message?, bind_assoc]
              refine bind_congr fun m => bind_congr fun r => ?_
              exact visitParts_eq h (s := ⟨v, values, name, start⟩) rfl hshown hchildren htemplate r

theorem rootsOf_eq (h : Schema.HasShape schema) :
    Field.rootsOf schema = .ok ((Schema.rootFields schema).map ofValue) := by
  obtain ⟨list, xs, hlist, hxs⟩ := h.fields
  have hitems : Field.demandItems (schema.getOrNull "fields") = .ok () := by
    rw [Value.getOrNull, hlist, Option.getD_some]
    exact demandItems_of_itemsOf? hxs
  rw [Field.rootsOf, Field.demandMap, if_pos h.isMap, ok_bind, hitems, ok_bind, ← Schema.forest_eq]
  rfl

/-- The walk over a form notes what is wrong with it, spot by spot. -/
theorem report_eq (h : Schema.HasShape schema) :
    report limits schema values = (spots limits schema values).foldlM (noteAt limits) [] := by
  rw [report, rootsOf_eq h, ok_bind, spots, roots]
  have hfits := h.fits
  generalize Schema.rootFields schema = fs at hfits
  generalize ([] : Report) = r
  induction fs generalizing r with
  | nil => rfl
  | cons f fs ih =>
      obtain ⟨hf, hfs⟩ := List.forall_mem_cons.1 hfits
      obtain ⟨key, -, hkey⟩ := hf.key
      have hvisit : (do
            Field.demandMap (ofValue f).value
            visit limits values r (ofValue f).key "" (ofValue f)) =
          (Spot.walk limits ⟨f, values, keyText f, ""⟩).foldlM (noteAt limits) r := by
        rw [Field.key, Field.get, Field.value_ofValue, demandMap_of_fits hf, hkey, keyText_eq hkey]
        exact walksAs_of_fits hf _ _ _ _
      rw [List.map_cons, List.foldlM_cons, List.map_cons, List.flatMap_cons, List.foldlM_append,
        ← hvisit]
      exact bind_congr fun r => ih hfs r

end Form

end FormDesigner
