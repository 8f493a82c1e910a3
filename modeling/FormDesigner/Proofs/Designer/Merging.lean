import FormDesigner.Proofs.Designer.Submitting
import FormDesigner.Proofs.Field.Replacing
import FormDesigner.Proofs.Store.Patching
import FormDesigner.Proofs.Value.Difference

/-!
# What an untouched form makes of a field
-/

namespace FormDesigner

namespace FieldType

variable {type : FieldType}

theorem options_mem_declared (h : type.isChoice = true) :
    ⟨"options", true, Shape.options⟩ ∈ type.declared := by
  refine List.mem_append_right _ ?_
  cases type with
  | select | multiselect | radio => exact List.mem_singleton_self _
  | _ => cases h

theorem isChoice_of_mem_declared {c : Shape.Attribute} (hc : c ∈ type.declared)
    (h : c.name = "options") : type.isChoice = true := by
  have hname := List.mem_map_of_mem (f := Shape.Attribute.name) hc
  rw [h] at hname
  cases type with
  | select | multiselect | radio => rfl
  | _ => exact absurd hname (by decide)

end FieldType

namespace Designer

open Inspector (Choice ofNumber? orNull valueOrNull)
open Patch (mergeFields)

variable {v d : Value} {a b : Option Number} {os : Option (List Value)} {n : String}

/-! ### Attributes that the patch gives -/

variable {type : FieldType} {w : Value} {check : Shape.Check}

/-- A value that passes the check of a declared name. Only where null may stand can it be null. -/
theorem accepts_declared {required : Bool} (h : ⟨n, required, check⟩ ∈ type.declared)
    (hnull : w.isNull = true → required = false) (hcheck : check w = []) :
    Shape.Accepts type.declared n w := by
  have hunique : ∀ c ∈ type.declared, c.name = n → c = ⟨n, required, check⟩ := fun c hc hname =>
    FieldType.declared_unique hc h hname
  refine ⟨⟨_, h, rfl⟩, fun hw c hc hname => ?_, fun _ c hc hname => ?_⟩
  · rw [hunique c hc hname]
    exact hnull hw
  · rw [hunique c hc hname]
    exact hcheck

theorem accepts_required (h : ⟨n, true, check⟩ ∈ Shape.shared) (hnull : w.isNull = false)
    (hcheck : check w = []) : Shape.Accepts type.declared n w :=
  accepts_declared (List.mem_append_left _ h) (fun hw => absurd hw (Bool.eq_false_iff.1 hnull))
    hcheck

theorem accepts_optional (h : ⟨n, false, Shape.optional check⟩ ∈ Shape.shared)
    (hcheck : Shape.optional check w = []) : Shape.Accepts type.declared n w :=
  accepts_declared (List.mem_append_left _ h) (fun _ => rfl) hcheck

theorem accepts_options (h : type.isChoice = true) {xs : List Value}
    (hxs : ∀ x ∈ xs, Shape.option x = []) : Shape.Accepts type.declared "options" (.list xs) := by
  have hcheck : Shape.options (.list xs) = [] := Shape.eachItem_eq_nil_iff.2 hxs
  exact accepts_declared (FieldType.options_mem_declared h) nofun hcheck

theorem text_orNull (s : String) : Shape.optional Shape.text (orNull s) = [] := by
  unfold orNull
  split
  · rfl
  · rfl

theorem text_valueOrNull (s : String) :
    Shape.optional Shape.text (valueOrNull (.text s)) = [] := by
  unfold valueOrNull
  split
  · rfl
  · rfl

theorem accepts_plainFields (hkey : Text.trim (textIn v "key") ≠ "")
    (hd : Shape.optional Shape.defaultValue d = []) (type : FieldType) :
    ∀ f ∈ plainFields v d, Shape.Accepts type.declared f.1 f.2 := by
  have hplaceholder : ∀ b s,
      Shape.optional Shape.text (if b = true then .text s else .null) = [] := by
    intro b s
    cases b <;> rfl
  have hrequired : ∀ b,
      Shape.optional Shape.boolean (if b = true then .bool true else .null) = [] := by
    intro b
    cases b <;> rfl
  have hlabel : Shape.text (.text (textIn v "label")) = [] := rfl
  simp only [plainFields, List.forall_mem_cons]
  refine ⟨?_, ?_, ?_, ?_, ?_, ?_, ?_, ?_, List.forall_mem_nil _⟩
  · exact accepts_required (by simp [Shape.shared]) rfl
      (Shape.filledText_eq_nil_iff.2 ⟨_, hkey, rfl⟩)
  · exact accepts_required (by simp [Shape.shared]) rfl hlabel
  · exact accepts_optional (by simp [Shape.shared]) (hplaceholder _ _)
  · exact accepts_optional (by simp [Shape.shared]) (text_valueOrNull _)
  · exact accepts_optional (by simp [Shape.shared]) (hrequired _)
  · exact accepts_optional (by simp [Shape.shared]) (text_orNull _)
  · exact accepts_optional (by simp [Shape.shared]) (text_orNull _)
  · exact accepts_optional (by simp [Shape.shared]) hd

theorem accepts_ruleFields (ha : Shape.optional Shape.measure (ofNumber? a) = [])
    (hb : Shape.optional Shape.measure (ofNumber? b) = []) :
    ∀ r ∈ ruleFields v a b, r.1 ≠ "id" ∧ r.1 ≠ "validation" ∧
      Shape.Accepts Patch.ruleAttributes r.1 r.2 := by
  have haccepts : ∀ {n : String} {check : Shape.Check} {w : Value},
      ⟨n, false, Shape.optional check⟩ ∈ Patch.ruleAttributes → Shape.optional check w = [] →
        (∀ c ∈ Patch.ruleAttributes, c.name = n → c = ⟨n, false, Shape.optional check⟩) →
          Shape.Accepts Patch.ruleAttributes n w := fun h hw hunique =>
    ⟨⟨_, h, rfl⟩, fun _ c hc hname => hunique c hc hname ▸ rfl,
      fun _ c hc hname => hunique c hc hname ▸ hw⟩
  simp only [ruleFields, List.forall_mem_cons]
  refine ⟨⟨by decide, by decide, ?_⟩, ⟨by decide, by decide, ?_⟩, ⟨by decide, by decide, ?_⟩,
    List.forall_mem_nil _⟩
  · exact haccepts (by simp [Patch.ruleAttributes]) ha (by simp [Patch.ruleAttributes])
  · exact haccepts (by simp [Patch.ruleAttributes]) hb (by simp [Patch.ruleAttributes])
  · exact haccepts (by simp [Patch.ruleAttributes]) (text_valueOrNull _)
      (by simp [Patch.ruleAttributes])

theorem names_patchFields : (patchFields v d a b os).map Prod.fst =
    ["key", "label", "placeholder", "helpText", "required", "visibleWhen", "computed",
      "defaultValue", "validation"] ++ (os.map fun _ => "options").toList := by
  cases os <;> rfl

theorem nodup_patchFields : ((patchFields v d a b os).map Prod.fst).Nodup := by
  rw [names_patchFields]
  cases os <;> simp

/-- Options for a type with a choice. -/
def SuitOptions (v : Value) (os : Option (List Value)) : Prop :=
  ∀ xs ∈ os, (∃ type : FieldType, v.getOrNull "type" = .text type.name ∧ type.isChoice = true) ∧
    ∀ x ∈ xs, Shape.option x = []

/-- A field with an untouched form merged into it fits, if what was read fits. -/
theorem fits_mergeFields (hv : v.Fits) (hkey : Text.trim (textIn v "key") ≠ "")
    (hd : Shape.optional Shape.defaultValue d = [])
    (ha : Shape.optional Shape.measure (ofNumber? a) = [])
    (hb : Shape.optional Shape.measure (ofNumber? b) = []) (hos : SuitOptions v os) :
    (mergeFields v (patchFields v d a b os)).Fits := by
  have hnotMem : ∀ {n}, n ∉ ["key", "label", "placeholder", "helpText", "required", "visibleWhen",
      "computed", "defaultValue", "validation", "options"] →
        (mergeFields v (patchFields v d a b os)).get? n = v.get? n := by
    intro n hn
    refine Patch.get?_mergeFields_of_notMem ?_
    rw [names_patchFields]
    cases os with
    | none => exact fun h => hn (by simp_all)
    | some => exact hn
  cases hv with
  | @intro es type kind own children template =>
      have hplain : ∀ f ∈ plainFields (.map es) d, f.1 ≠ "id" ∧
          (f.1 = "validation" → f.2.isMap = false) ∧ Shape.Accepts type.declared f.1 f.2 := by
        intro f hf
        have hname := List.mem_map_of_mem (f := Prod.fst) hf
        refine ⟨fun heq => ?_, fun heq => ?_, accepts_plainFields hkey hd type f hf⟩
        · rw [heq] at hname
          exact absurd hname (by simp [plainFields])
        · rw [heq] at hname
          exact absurd hname (by simp [plainFields])
      have hoptions : ∀ f ∈ (os.map fun xs => ("options", Value.list xs)).toList, f.1 ≠ "id" ∧
          (f.1 = "validation" → f.2.isMap = false) ∧ Shape.Accepts type.declared f.1 f.2 := by
        intro f hf
        rw [Option.mem_toList] at hf
        obtain ⟨xs, hxs, rfl⟩ := Option.map_eq_some_iff.1 hf
        obtain ⟨⟨type', htype, hchoice⟩, hitems⟩ := hos xs hxs
        rw [Value.getOrNull, Value.get?_map, kind] at htype
        obtain rfl : type = type' := FieldType.name_injective (Value.text.inj htype)
        exact ⟨by simp, by simp, accepts_options hchoice hitems⟩
      have hvalidation : ⟨"validation", false, Shape.optional Shape.rules⟩ ∈ type.declared :=
        List.mem_append_left _ (by simp [Shape.shared])
      obtain ⟨fs, hfs, hown⟩ := Patch.attributes_mergeFields own hplain
      obtain ⟨gs, hgs, hown⟩ := Patch.attributes_mergeAttribute_rules hown ⟨_, hvalidation, rfl⟩
        (fun c hc hname => FieldType.declared_unique hc hvalidation hname ▸ rfl)
        (accepts_ruleFields (v := .map es) ha hb)
      obtain ⟨hs, hhs, hown⟩ := Patch.attributes_mergeFields hown hoptions
      have hmerged : mergeFields (.map es) (patchFields (.map es) d a b os) = .map hs := by
        rw [patchFields, Patch.mergeFields_append, Patch.mergeFields_append, hfs, ← hhs, ← hgs]
        rfl
      have htype := hnotMem (n := "type") (by decide)
      have hmap : (mergeFields (.map es) (patchFields (.map es) d a b os)).isMap =
          (Value.map es).isMap := Patch.isMap_mergeFields
      have hor : ∀ {n}, (mergeFields (.map es) (patchFields (.map es) d a b os)).get? n =
          (Value.map es).get? n → (mergeFields (.map es) (patchFields (.map es) d a b os)).getOrNull n
            = (Value.map es).getOrNull n := fun h => congrArg (·.getD .null) h
      have hchildren := Value.childValues_congr hmap (hor htype) (hor (hnotMem (by decide)))
      have htemplate := Value.templateValue?_congr hmap (hor htype) (hnotMem (by decide))
      rw [hmerged] at htype hchildren htemplate ⊢
      exact .intro (htype.trans kind) hown (hchildren ▸ children) (htemplate ▸ template)

/-! ### The options that were read -/

open Inspector (optionsText parseOptions)

/-- What is read from the box for options, if there is one. -/
inductive OptionsRead (v : Value) : Option (List Value) → Prop
  | none (held : v.getOrNull "options" = .null) : OptionsRead v none
  | some {ps cs : List Choice} {xs : List Value}
      (choice : ∃ type : FieldType, v.getOrNull "type" = .text type.name ∧ type.isChoice = true)
      (held : v.getOrNull "options" = .list xs)
      (written : List.Forall₂ Choice.IsWrittenIn cs xs)
      (back : ps = cs ↔ ∀ o ∈ cs, o.IsWritable) :
      OptionsRead v (some (ps.map Choice.toValue))

/-- JSON writes options in a list. -/
theorem list_of_options (hw : w.IsJson) (h : Shape.options w = []) : ∃ xs, w = .list xs := by
  unfold Shape.options at h
  split at h
  · next xs hxs =>
      rcases Value.itemsOf?_eq_some hxs with rfl | rfl | rfl
      · exact ⟨xs, rfl⟩
      · cases hw with
        | tuple hnode => cases hnode
        | scalar hscalar => cases hscalar
      · cases hw with
        | set hnode => cases hnode
        | scalar hscalar => cases hscalar
  · exact absurd h Shape.here_ne_nil

theorem OptionsRead.suit (h : OptionsRead v os) : SuitOptions v os := by
  cases h with
  | none => exact nofun
  | some choice =>
      rintro xs ⟨⟩
      exact ⟨choice, List.forall_mem_map.2 fun c _ => c.option_toValue⟩

theorem OptionsRead.isJson (h : OptionsRead v os) : ∀ xs ∈ os, (Value.list xs).IsJson := by
  cases h with
  | none => exact nofun
  | some =>
      rintro xs ⟨⟩
      exact .list (List.forall_mem_map.2 fun c _ => c.isJson_toValue)

theorem exists_optionsRead (hv : v.Fits) (hjson : v.IsJson) :
    ∃ options os, shownOptions v = .ok options ∧ readOptions options = .ok os ∧
      OptionsRead v os := by
  cases hv with
  | @intro es type kind own =>
      obtain ⟨known, present, valid⟩ := Shape.attributes_eq_nil_iff.1 own
      have htype : (Value.map es).getOrNull "type" = .text type.name := by
        rw [Value.getOrNull, Value.get?_map, kind]
        rfl
      have hof : FieldType.ofValue? (.text type.name) = some type :=
        FieldType.ofName?_eq_some_iff.2 rfl
      by_cases hchoice : type.isChoice = true
      · have hdeclared := FieldType.options_mem_declared hchoice
        obtain ⟨w, hw⟩ := present _ hdeclared rfl
        have hcheck : Shape.options w = [] := valid _ hdeclared w hw
        have hwjson : w.IsJson := hjson.get? (n := "options") hw
        have hheld : (Value.map es).getOrNull "options" = w := by
          rw [Value.getOrNull, Value.get?_map, hw]
          rfl
        obtain ⟨xs, rfl⟩ := list_of_options hwjson hcheck
        have hitems : ∀ x ∈ xs, Shape.option x = [] := Shape.eachItem_eq_nil_iff.1 hcheck
        have hxs : ∀ x ∈ xs, x.IsJson := Value.IsIn.list_iff.1 hwjson
        obtain ⟨cs, hcs⟩ := Choice.exists_all_writtenIn hxs hitems
        obtain ⟨s, ps, hs, hps, hback⟩ := Inspector.exists_options hcs
        refine ⟨Option.some s, _, ?_, ?_, .some ⟨type, htype, hchoice⟩ hheld hcs hback⟩
        · rw [shownOptions, htype, hof, hheld, hs]
          exact if_pos hchoice
        · rw [readOptions, hps]
          rfl
      · refine ⟨Option.none, Option.none, ?_, rfl, .none ?_⟩
        · rw [shownOptions, htype, hof]
          exact if_neg hchoice
        · rw [Value.getOrNull, Value.get?_map]
          cases hw : Entries.get? es (.text "options") with
          | none => rfl
          | some w =>
              obtain ⟨c, hc, hname⟩ := known _ (Entries.mem_of_get?_eq_some hw)
              exact absurd (FieldType.isChoice_of_mem_declared hc (Value.text.inj hname).symm) hchoice

end Designer

end FormDesigner
