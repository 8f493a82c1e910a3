import FormDesigner.Proofs.Designer.Bounds
import FormDesigner.Proofs.Designer.Form
import FormDesigner.Proofs.Designer.Options
import FormDesigner.Proofs.Field.Rules

/-!
# The untouched form, handed in
-/

namespace FormDesigner

namespace Designer

open Inspector (Choice parseDefault parseNumber parseOptions ofNumber? orNull valueOrNull)

/-- The text under a name, if there is one. -/
def textIn (v : Value) (n : String) : String := (v.getOrNull n).asText?.getD ""

/-- The attributes that an untouched form gives one by one, with a default value that was read. -/
def plainFields (field default : Value) : List (String × Value) :=
  [("key", .text (Text.trim (textIn field "key"))), ("label", .text (textIn field "label")),
    ("placeholder",
      if (Value.text (textIn field "placeholder")).isTrue || field.has "placeholder" then
        .text (textIn field "placeholder")
      else .null),
    ("helpText", valueOrNull (.text (textIn field "helpText"))),
    ("required", if (field.getOrNull "required").isTrue then .bool true else .null),
    ("visibleWhen", orNull (Text.trim (textIn field "visibleWhen"))),
    ("computed", orNull (Text.trim (textIn field "computed"))), ("defaultValue", default)]

/-- The rules that it gives, with bounds that were read. -/
def ruleFields (field : Value) (low high : Option Number) : List (String × Value) :=
  [("min", ofNumber? low), ("max", ofNumber? high),
    ("regex", valueOrNull (.text (textIn field.rules "regex")))]

/-- All attributes that an untouched form gives, with options that were read, if any. -/
def patchFields (field default : Value) (low high : Option Number) (options : Option (List Value)) :
    List (String × Value) :=
  plainFields field default ++ [("validation", .ofFields (ruleFields field low high))]
  ++ (options.map fun xs => ("options", .list xs)).toList

variable {v : Value} {n : String}

/-! ### What the boxes show -/

theorem content_eq (h : v.getOrNull n = .null ∨ Shape.text (v.getOrNull n) = []) :
    content v n = .text (textIn v n) := by
  rcases h with h | h
  · rw [content, textIn, h]
    rfl
  · obtain ⟨s, hs⟩ := Shape.text_eq_nil_iff.1 h
    rw [content, textIn, hs]
    by_cases hempty : s = ""
    · subst hempty
      rfl
    · simp [Value.isTrue, Value.asText?, hempty]

theorem entryOr_eq {s : String} (h : v.getOrNull n = .text s) :
    entryOr v n (.text "") = .text (textIn v n) := by
  rw [entryOr, textIn, h]
  rw [Value.getOrNull] at h
  cases hw : v.get? n with
  | none =>
      rw [hw] at h
      cases h
  | some w =>
      rw [hw] at h
      exact h

theorem content_shared (hv : v.Fits)
    (hn : n ∈ ["placeholder", "helpText", "visibleWhen", "computed"]) :
    content v n = .text (textIn v n) := by
  refine content_eq (hv.optional_of_shared n Shape.text ?_)
  simp only [List.mem_cons, List.not_mem_nil, or_false] at hn
  rcases hn with rfl | rfl | rfl | rfl <;> simp [Shape.shared]

theorem content_regex (hv : v.Fits) : content v.rules "regex" = .text (textIn v.rules "regex") := by
  refine content_eq ?_
  rcases hv.rules_cases with hnull | ⟨es, hmap, hrules⟩
  · left
    rw [hnull]
    rfl
  · obtain ⟨-, -, valid⟩ := Shape.attributes_eq_nil_iff.1 hrules
    rw [hmap, Value.getOrNull, Value.get?_map]
    cases hw : Entries.get? es (.text "regex") with
    | none => exact .inl rfl
    | some w =>
        exact Shape.optional_eq_nil_iff.1 (valid ⟨"regex", false, Shape.optional Shape.text⟩
          (by simp) w hw)

/-! ### What is made of them -/

/-- The box for options is shown for types with a choice. -/
theorem isChoice_of_shownOptions {options : Option String} (h : shownOptions v = .ok options) :
    (FieldType.ofValue? (v.getOrNull "type")).any FieldType.isChoice = options.isSome := by
  rw [shownOptions] at h
  split at h
  · next hchoice =>
      obtain ⟨s, -, rfl⟩ := Result.map_eq_ok.1 h
      exact hchoice
  · next hchoice =>
      obtain rfl := Except.ok.inj h
      exact Bool.eq_false_iff.2 hchoice

theorem has_options_formOf {default low high : String} {options : Option String} :
    (formOf v default low high options).has "options" = options.isSome := by
  rw [Value.has, formOf, Value.ofFields, Value.get?_map, Bool.eq_iff_iff, Entries.get?_isSome_iff,
    Entries.names_ofFields]
  cases options <;> simp [formFields]

theorem trimmed_eq {form : Value} {s : String} (h : form.entry n = .ok (.text s)) :
    Inspector.trimmed form n = .ok (Text.trim s) := by
  rw [Inspector.trimmed, h]
  rfl

/-- How the options of a form are read, if its type has a box for them. -/
def readOptions (options : Option String) : Except Failure (Option (List Value)) :=
  match options with
  | some s => (parseOptions (.text s)).map some
  | none => .ok none

/-- A form has a box for options where they are read. -/
theorem readsOptions_formOf {default low high : String} {options : Option String}
    {type : FieldType} (htype : v.getOrNull "type" = .text type.name)
    (hshown : shownOptions v = .ok options) :
    ((formOf v default low high options).has "options" &&
      ((Value.text type.name).asText?.bind FieldType.ofName?).any FieldType.isChoice) =
        options.isSome := by
  have hchoice := isChoice_of_shownOptions hshown
  rw [htype] at hchoice
  change (_ && (FieldType.ofValue? (.text type.name)).any FieldType.isChoice) = _
  rw [hchoice, has_options_formOf, Bool.and_self]

section Entries

variable {default low high : String} {options : Option String}

/-- The boxes of an untouched form that show a text of the field. -/
theorem textEntry_formOf (hv : v.Fits)
    (hn : n ∈ ["key", "label", "placeholder", "helpText", "visibleWhen", "computed"]) :
    (formOf v default low high options).entry n = .ok (.text (textIn v n)) := by
  obtain ⟨key, -, hkey⟩ := hv.key
  obtain ⟨label, hlabel⟩ := hv.label
  simp only [List.mem_cons, List.not_mem_nil, or_false] at hn
  rcases hn with rfl | rfl | hn
  · rw [← entryOr_eq hkey]
    exact entry_formOf (by simp [formFields])
  · rw [← entryOr_eq hlabel]
    exact entry_formOf (by simp [formFields])
  · rw [← content_shared hv (by simpa using hn)]
    refine entry_formOf ?_
    rcases hn with rfl | rfl | rfl | rfl <;> simp [formFields]

theorem regexEntry_formOf (hv : v.Fits) :
    (formOf v default low high options).entry "regex" = .ok (.text (textIn v.rules "regex")) := by
  rw [← content_regex hv]
  exact entry_formOf (by simp [formFields, Value.rules])

theorem typeEntry_formOf {type : FieldType} (htype : v.getOrNull "type" = .text type.name) :
    (formOf v default low high options).entry "type" = .ok (.text type.name) := by
  rw [← htype]
  exact entry_formOf (by simp [formFields])

end Entries

theorem patch_formOf (hv : v.Fits) {type : FieldType} (htype : v.getOrNull "type" = .text type.name)
    {default low high : String} {options : Option String} {a b : Option Number}
    {os : Option (List Value)} (hlow : parseNumber (.text low) = .ok a)
    (hhigh : parseNumber (.text high) = .ok b) (hshown : shownOptions v = .ok options)
    (hoptions : readOptions options = .ok os) :
    Inspector.patch v (formOf v default low high options) =
      (parseDefault (.text default)).map fun d => .ofFields (patchFields v d a b os) := by
  have htext : ∀ n ∈ ["key", "label", "placeholder", "helpText", "visibleWhen", "computed"],
      (formOf v default low high options).entry n = .ok (.text (textIn v n)) := fun n hn =>
    textEntry_formOf hv hn
  have htypeEntry : v.entry "type" = .ok (.text type.name) :=
    Value.entry_eq_ok_iff.2 (Value.get?_of_getOrNull htype nofun)
  have hsame : (Value.text type.name).equals (.text type.name) = true := by
    simp [Value.equals]
  have hrequired : (formOf v default low high options).entry "required" =
      .ok (.bool (v.getOrNull "required").isTrue) := entry_formOf (by simp [formFields])
  have hdefault : (formOf v default low high options).entry "defaultValue" =
      .ok (.text default) := entry_formOf (by simp [formFields])
  have hmin : (formOf v default low high options).entry "min" = .ok (.text low) :=
    entry_formOf (by simp [formFields])
  have hmax : (formOf v default low high options).entry "max" = .ok (.text high) :=
    entry_formOf (by simp [formFields])
  unfold Inspector.patch
  simp only [trimmed_eq (htext "key" (by simp)), htext "label" (by simp),
    htext "placeholder" (by simp), htext "helpText" (by simp), hrequired,
    trimmed_eq (htext "visibleWhen" (by simp)), trimmed_eq (htext "computed" (by simp)), hdefault,
    hmin, hmax, hlow, hhigh, regexEntry_formOf hv, typeEntry_formOf htype, htypeEntry,
    readsOptions_formOf htype hshown, hv.isMap, Result.ok_bind, hsame, Bool.not_true,
    Bool.and_false, Bool.false_eq_true, if_false]
  cases parseDefault (.text default) with
  | error e => rfl
  | ok d =>
      cases options with
      | none =>
          obtain rfl := Except.ok.inj hoptions
          rfl
      | some s =>
          obtain ⟨xs, hxs, rfl⟩ := (Result.map_eq_ok (x := parseOptions (.text s))).1 hoptions
          have hbox : (formOf v default low high (some s)).entry "options" = .ok (.text s) :=
            entry_formOf (by simp [formFields])
          rw [hbox]
          simp only [Result.ok_bind, hxs]
          rfl

end Designer

end FormDesigner
