import Mathlib
import FormDesigner.Proofs.Field.Differences
import FormDesigner.Proofs.Schema.Document

/-!
# Schemas without tuples and sets

What the check of shapes accepts is made of null, truth values, numbers and text, in mappings with
text keys and in sequences. A default value that is a sequence must be a list, but the fields of a
schema, the children of a section and the options of a choice may stand in a tuple or a set as well.
So an accepted schema consists of what JSON consists of exactly if each of these is a list.
-/

namespace FormDesigner

namespace Value

/-- Null, truth values, numbers and text. -/
def IsAtom : Value → Prop
  | .null | .bool _ | .int _ | .float _ | .text _ => True
  | _ => False

/-- Null, truth values, numbers of any size and text, in lists and in mappings with text keys. -/
def Domain.listed : Domain :=
  ⟨IsAtom, fun k => ∃ s, k = .text s, fun _ => trivial, Domain.textKeyed.key_text⟩

/-- What stands under a name, if anything does, is a list. -/
def HoldsList (v : Value) (n : String) : Prop := ∀ w, v.get? n = some w → w.isList = true

theorem IsIn.isList_of_itemsOf? {v : Value} {xs : List Value} (h : v.IsIn .listed)
    (hxs : Shape.itemsOf? v = some xs) : v.isList = true := by
  cases h with
  | scalar hv => rcases itemsOf?_eq_some hxs with rfl | rfl | rfl <;> simp [isScalar] at hv
  | list => rfl
  | tuple node => exact absurd node id
  | set node => exact absurd node id
  | map => simp [Shape.itemsOf?] at hxs

theorem eq_list_of_isList {v : Value} {xs : List Value} (hv : v.isList = true)
    (hxs : Shape.itemsOf? v = some xs) : v = .list xs := by
  rcases itemsOf?_eq_some hxs with rfl | rfl | rfl
  · rfl
  · simp [isList] at hv
  · simp [isList] at hv

end Value

namespace Shape

open Value (IsIn IsProper)

variable {v : Value} {check : Check} {declared : List Attribute}

/-! ### Checks that leave no room for tuples and sets -/

/-- What passes a check is free of tuples and sets. -/
def IsStrict (check : Check) : Prop := ∀ {v}, check v = [] → v.IsProper → v.IsIn .listed

theorem isStrict_requires {condition : Value → Bool} {message : String}
    (h : ∀ v, condition v = true → v.isScalar = true ∧ v.IsAtom) :
    IsStrict (requires condition message) := fun hv _ =>
  have hv := h _ (requires_eq_nil_iff.1 hv)
  .scalar hv.1 hv.2

theorem isStrict_text : IsStrict text :=
  isStrict_requires fun v hv => by cases v <;> simp_all [Value.asText?, Value.isScalar, Value.IsAtom]

theorem isStrict_filledText : IsStrict filledText := by
  intro v hv _
  obtain ⟨s, -, rfl⟩ := filledText_eq_nil_iff.1 hv
  exact .text s

theorem isStrict_boolean : IsStrict boolean :=
  isStrict_requires fun v hv => by cases v <;> simp_all [Value.isBool, Value.isScalar, Value.IsAtom]

theorem isStrict_integer : IsStrict integer :=
  isStrict_requires fun v hv => by cases v <;> simp_all [isInteger, Value.isScalar, Value.IsAtom]

theorem isStrict_measure : IsStrict measure :=
  isStrict_requires fun v hv => by cases v <;> simp_all [isMeasure, Value.isScalar, Value.IsAtom]

theorem IsStrict.optional (h : IsStrict check) : IsStrict (optional check) := by
  intro v hv hproper
  rcases optional_eq_nil_iff.1 hv with rfl | hv
  · exact .scalar rfl trivial
  · exact h hv hproper

theorem isStrict_oneOf {checks : List (String × Check)} (hchecks : checks ≠ [])
    (h : ∀ c ∈ checks, IsStrict c.2) : IsStrict (oneOf checks) := by
  intro v hv hproper
  obtain ⟨c, hc, hv⟩ := (oneOf_eq_nil_iff hchecks).1 hv
  exact h c hc hv hproper

private theorem isStrict_scalarChecks : ∀ c ∈ scalarChecks, IsStrict c.2 := by
  simp only [scalarChecks, List.forall_mem_cons]
  exact ⟨isStrict_boolean, isStrict_integer, isStrict_measure, isStrict_text, List.forall_mem_nil _⟩

theorem isStrict_scalarList : IsStrict scalarList := by
  intro v hv hproper
  cases v with
  | list xs =>
      have hscalar : IsStrict scalar := isStrict_oneOf (by simp [scalarChecks]) isStrict_scalarChecks
      exact .list fun x hx =>
        hscalar (eachItem_eq_nil_iff.1 hv x hx) (IsIn.list_iff.1 hproper x hx)
  | _ => exact absurd hv here_ne_nil

theorem isStrict_defaultValue : IsStrict defaultValue := by
  refine isStrict_oneOf (by simp) fun c hc => ?_
  rcases List.mem_append.1 hc with hc | hc
  · exact isStrict_scalarChecks c hc
  · exact List.mem_singleton.1 hc ▸ isStrict_scalarList

theorem isStrict_record {name : String} (h : ∀ a ∈ declared, IsStrict a.check) :
    IsStrict (record name declared) := by
  intro v hv hproper
  cases v with
  | map es =>
      refine attributes_isIn hv hproper fun a ha w hw => ?_
      exact h a ha ((attributes_eq_nil_iff.1 hv).2.2 a ha w hw) (hproper.get? (n := a.name) hw)
  | _ => exact absurd hv here_ne_nil

theorem isStrict_rules : IsStrict rules := by
  refine isStrict_record ?_
  simp only [List.forall_mem_cons]
  exact ⟨isStrict_measure.optional, isStrict_measure.optional, isStrict_text.optional,
    List.forall_mem_nil _⟩

theorem isStrict_option : IsStrict option := by
  refine isStrict_record ?_
  simp only [List.forall_mem_cons]
  exact ⟨isStrict_text, isStrict_text, List.forall_mem_nil _⟩

/-- Options are a sequence of some kind, and each of them is free of tuples and sets. -/
theorem exists_options (hv : options v = []) (hproper : v.IsProper) :
    ∃ xs, itemsOf? v = some xs ∧ ∀ x ∈ xs, x.IsIn .listed := by
  unfold options at hv
  split at hv
  · rename_i xs hxs
    have hitems := hproper.elements (Value.itemsOf?_eq_some hxs)
    exact ⟨xs, hxs, fun x hx => isStrict_option (eachItem_eq_nil_iff.1 hv x hx) (hitems x hx)⟩
  · exact absurd hv here_ne_nil

/-- What holds other fields or options is a sequence of some kind. -/
theorem exists_itemsOf?_of_declared {type : FieldType} {a : Attribute} (ha : a ∈ type.declared)
    (hn : a.name = "children" ∨ a.name = "options") (hv : a.check v = []) (hproper : v.IsProper) :
    ∃ xs, itemsOf? v = some xs := by
  rcases List.mem_append.1 ha with ha | ha
  · have hshared : ∀ a ∈ shared, ¬(a.name = "children" ∨ a.name = "options") := by simp [shared]
    exact absurd hn (hshared a ha)
  · cases type with
    | select | multiselect | radio =>
        obtain rfl := List.mem_singleton.1 ha
        obtain ⟨xs, hxs, -⟩ := exists_options hv hproper
        exact ⟨xs, hxs⟩
    | «section» =>
        obtain rfl := List.mem_singleton.1 ha
        by_contra hnone
        rw [← Option.isSome_iff_exists] at hnone
        exact absurd ((if_neg hnone).symm.trans hv) here_ne_nil
    | array =>
        obtain rfl := List.mem_singleton.1 ha
        simp at hn
    | _ => exact absurd ha List.not_mem_nil

end Shape

/-! ### Fields and schemas -/

namespace Value

variable {v w : Value}

/-- A field that holds its children and options, if it has any, in lists. -/
def HoldsLists (v : Value) : Prop := v.HoldsList "children" ∧ v.HoldsList "options"

/-- What a fitting field may hold under a name: a template, a sequence of children, a sequence of
options, or a value without tuples and sets. -/
inductive MayHold (v : Value) : String → Value → Prop
  | listed {n : String} {w : Value} (h : w.IsIn .listed) : MayHold v n w
  | template {w : Value} (hv : v.isArray = true) : MayHold v "of" w
  | children {w : Value} {xs : List Value} (hv : v.isSection = true)
      (hxs : Shape.itemsOf? w = some xs) : MayHold v "children" w
  | options {w : Value} {xs : List Value} (hxs : Shape.itemsOf? w = some xs)
      (hall : ∀ x ∈ xs, x.IsIn .listed) : MayHold v "options" w

namespace Fits

private theorem isStrict_ownChecks : ∀ check ∈ ownChecks, Shape.IsStrict check := by
  simp only [ownChecks, List.forall_mem_cons]
  exact ⟨Shape.isStrict_filledText, Shape.isStrict_text, Shape.isStrict_text.optional,
    Shape.isStrict_boolean.optional, Shape.isStrict_defaultValue.optional,
    Shape.isStrict_rules.optional, List.forall_mem_nil _⟩

/-- Attribute by attribute. -/
theorem mayHold (h : v.Fits) (hv : v.IsProper) {n : String} (hw : v.get? n = some w) :
    v.MayHold n w := by
  have hproper : w.IsProper := hv.get? hw
  cases h with
  | @intro es type kind own =>
      obtain ⟨known, -, valid⟩ := Shape.attributes_eq_nil_iff.1 own
      obtain ⟨a, ha, hname⟩ := known _ (Entries.mem_of_get?_eq_some hw)
      obtain rfl := text.inj hname
      have hcheck := valid a ha w hw
      rcases declared_cases ha with hn | ⟨hn, rfl⟩ | ⟨hn, rfl⟩ | ⟨hn, hoptions⟩ | hown
      · have htype := hw.symm.trans (hn ▸ kind)
        exact .listed (Option.some.inj htype ▸ .text _)
      · obtain ⟨xs, hxs⟩ := Shape.exists_itemsOf?_of_declared ha (.inl hn) hcheck hproper
        exact hn ▸ .children ((isSection_map_iff kind).2 rfl) hxs
      · exact hn ▸ .template ((isArray_map_iff kind).2 rfl)
      · obtain ⟨xs, hxs, hall⟩ := Shape.exists_options (hoptions ▸ hcheck) hproper
        exact hn ▸ .options hxs hall
      · exact .listed (isStrict_ownChecks _ hown hcheck hproper)

/-- Children and options that are free of tuples and sets stand in lists. -/
theorem holdsList_of_listed (h : v.Fits) (hv : v.IsIn .listed) {n : String}
    (hn : n = "children" ∨ n = "options") : v.HoldsList n := by
  intro w hw
  have hproper : w.IsProper := hv.isProper.get? hw
  cases h with
  | intro _ own =>
      obtain ⟨known, -, valid⟩ := Shape.attributes_eq_nil_iff.1 own
      obtain ⟨a, ha, hname⟩ := known _ (Entries.mem_of_get?_eq_some hw)
      obtain rfl := text.inj hname
      obtain ⟨xs, hxs⟩ := Shape.exists_itemsOf?_of_declared ha hn (valid a ha w hw) hproper
      exact (hv.get? hw).isList_of_itemsOf? hxs

/-- A fitting field is free of tuples and sets if its children and options, and those of all that it
owns, are lists. By induction on what it owns. -/
theorem listed_of_holdsLists (h : v.Fits) (hv : v.IsProper) (hlists : ∀ w ∈ v.owned, w.HoldsLists) :
    v.IsIn .listed := by
  induction v using branches_induction with
  | node v ih =>
      rw [owned_eq_branches] at hlists
      obtain ⟨⟨hchildren, hoptions⟩, hbelow⟩ := List.forall_mem_cons.1 hlists
      have hbranches : ∀ c ∈ v.branches, c.IsIn .listed := fun c hc =>
        ih c hc (h.branches c hc) (hv.branches c hc) fun w hw =>
          hbelow w (List.mem_flatMap.2 ⟨c, hc, hw⟩)
      have hvalues : ∀ n w, v.get? n = some w → w.IsIn .listed := by
        intro n w hw
        cases h.mayHold hv hw with
        | listed hlisted => exact hlisted
        | template harray =>
            have ht : w ∈ v.templateValue? := (if_pos harray).trans hw
            exact hbranches w
              (List.mem_append_right _ (mem_fieldTemplate_iff.2 ⟨ht, (h.template w ht).isMap⟩))
        | children hsection hxs =>
            have hchildValues := childValues_eq hsection hw hxs
            rw [eq_list_of_isList (hchildren w hw) hxs]
            exact .list fun x hx => hbranches x (List.mem_append_left _ (hchildValues ▸ hx))
        | options hxs hall =>
            rw [eq_list_of_isList (hoptions w hw) hxs]
            exact .list hall
      cases h with
      | intro _ own => exact Shape.attributes_isIn own hv fun a _ w hw => hvalues a.name w hw

end Fits

end Value

namespace Schema

open Value (IsIn)

variable {v : Value}

/-- A schema of the right shape is free of tuples and sets if its fields, and the children and
options of every field in it, are lists. -/
theorem HasShape.listed_iff (h : HasShape v) (hv : v.IsProper) : v.IsIn .listed ↔
    v.HoldsList "fields" ∧ ∀ f ∈ (rootFields v).flatMap Value.owned, f.HoldsLists := by
  obtain ⟨list, xs, hlist, hxs⟩ := h.fields
  have hvalue : v.getOrNull "fields" = list := by rw [Value.getOrNull, hlist, Option.getD_some]
  constructor
  · intro hlisted
    refine ⟨fun w hw => ?_, fun f hf => ?_⟩
    · obtain rfl := Option.some.inj (hlist.symm.trans hw)
      exact (hlisted.get? hw).isList_of_itemsOf? hxs
    · obtain ⟨x, hx, hf⟩ := List.mem_flatMap.1 hf
      have hfits := (h.fits x hx).owned f hf
      have hf := (isIn_rootFields hlisted x hx).owned f hf
      exact ⟨hfits.holdsList_of_listed hf (.inl rfl), hfits.holdsList_of_listed hf (.inr rfl)⟩
  · rintro ⟨hfields, hlists⟩
    have hroot := Value.eq_list_of_isList (hfields list hlist) (hvalue ▸ h.fields_eq)
    refine h.isIn hv trivial ?_
    rw [hvalue, hroot]
    exact .list fun x hx => (h.fits x hx).listed_of_holdsLists (isIn_rootFields hv x hx)
      fun w hw => hlists w (List.mem_flatMap.2 ⟨x, hx, hw⟩)

/-- What the check of shapes accepts is made of null, truth values, numbers and text, in mappings with
text keys and in sequences. Only the fields of the schema, the children of sections and the options of
choices may be other sequences than lists, and if none of them is, nothing in the schema is. -/
theorem accepted_listed_iff (hv : v.IsProper) (accepted : schemaProblems v = .ok []) :
    v.IsIn .undated ∧
      (∀ f ∈ (rootFields v).flatMap Value.owned, ∀ n w, f.get? n = some w → f.MayHold n w) ∧
        (v.IsIn .listed ↔
          v.HoldsList "fields" ∧ ∀ f ∈ (rootFields v).flatMap Value.owned, f.HoldsLists) := by
  have hshape := schemaProblems_eq_nil_iff.1 accepted
  refine ⟨hshape.undated hv, fun f hf n w hw => ?_, hshape.listed_iff hv⟩
  obtain ⟨x, hx, hf⟩ := List.mem_flatMap.1 hf
  exact ((hshape.fits x hx).owned f hf).mayHold ((isIn_rootFields hv x hx).owned f hf) hw

/-- The only child of a section. -/
def onlyChild : Value :=
  .ofFields [("id", .text "2"), ("key", .text "b"), ("type", .text "text"), ("label", .text "B")]

/-- A section that holds its child in a tuple. -/
def tupledSection : Value :=
  .ofFields [("id", .text "1"), ("key", .text "a"), ("type", .text "section"), ("label", .text "A"),
    ("children", .tuple [onlyChild])]

def tupledSchema : Value :=
  .ofFields [("version", .int 1), ("fields", .list [tupledSection])]

theorem tupledSchema_isProper : tupledSchema.IsProper := by
  have hchild : onlyChild.IsProper := IsIn.ofFields (by simp) (by simp [IsIn.text])
  have hsection : tupledSection.IsProper := by
    refine IsIn.ofFields (by simp) ?_
    simp only [List.forall_mem_cons]
    exact ⟨.text _, .text _, .text _, .text _, .tuple trivial (List.forall_mem_singleton.2 hchild),
      List.forall_mem_nil _⟩
  refine IsIn.ofFields (by simp) ?_
  simp only [List.forall_mem_cons]
  exact ⟨.scalar rfl trivial, .list (List.forall_mem_singleton.2 hsection), List.forall_mem_nil _⟩

theorem problems_tupledSchema : schemaProblems tupledSchema = .ok [] := by cbv

theorem get?_tupledSection : tupledSection.get? "children" = some (.tuple [onlyChild]) := by cbv

theorem rootFields_tupledSchema : rootFields tupledSchema = [tupledSection] := by cbv

/-- The check of shapes accepts the tuple. -/
theorem accepted_with_tuple :
    tupledSchema.IsProper ∧ schemaProblems tupledSchema = .ok [] ∧ tupledSchema.IsIn .undated ∧
      ¬tupledSchema.IsIn .listed := by
  obtain ⟨hundated, -, hiff⟩ := accepted_listed_iff tupledSchema_isProper problems_tupledSchema
  refine ⟨tupledSchema_isProper, problems_tupledSchema, hundated, fun hlisted => ?_⟩
  obtain ⟨-, hlists⟩ := hiff.1 hlisted
  have hmem : tupledSection ∈ (rootFields tupledSchema).flatMap Value.owned :=
    List.mem_flatMap.2 ⟨tupledSection, rootFields_tupledSchema ▸ .head _,
      Value.owned_eq _ ▸ .head _⟩
  exact absurd ((hlists _ hmem).1 _ get?_tupledSection) Bool.false_ne_true

end Schema

end FormDesigner
