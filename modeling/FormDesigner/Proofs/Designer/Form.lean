import FormDesigner.Designer.Page
import FormDesigner.Proofs.Page.Drawing
import FormDesigner.Proofs.Result
import FormDesigner.Proofs.Value.Domain

/-!
# The form as it is shown

While nothing has been entered, each control answers with what it shows. So the form of the
inspector, handed in untouched, is made of the texts that its boxes were filled with.
-/

namespace FormDesigner

namespace Drawing

variable {α β : Type} {v : Visit}

/-- On a visit, drawing answers with a value, and changes nothing but what is shown. -/
def Answers (d : Drawing α) (v : Visit) (a : α) : Prop :=
  ∀ session shown, ∃ more, d.run ⟨session, v, shown⟩ = (.ok a, ⟨session, v, shown ++ more⟩)

theorem Answers.bind {d : Drawing α} {f : α → Drawing β} {a : α} {b : β} (hd : d.Answers v a)
    (hf : (f a).Answers v b) : (d >>= f).Answers v b := by
  intro session shown
  obtain ⟨more, hmore⟩ := hd session shown
  obtain ⟨rest, hrest⟩ := hf session (shown ++ more)
  refine ⟨more ++ rest, ?_⟩
  rw [run_bind_of_ok f hmore, hrest, List.append_assoc]

theorem answers_pure (a : α) : (pure a : Drawing α).Answers v a := fun session shown =>
  ⟨[], by rw [List.append_nil]; rfl⟩

theorem answers_add (e : Element) : (add e).Answers v () := fun _ _ => ⟨[e], rfl⟩

theorem answers_ofExcept {r : Except Failure α} {a : α} (h : r = .ok a) :
    (ofExcept r).Answers v a := fun session shown =>
  ⟨[], by rw [run_ofExcept h, List.append_nil]⟩

theorem answers_button (e : Element) :
    (button e).Answers v (!e.isDisabled && e.name.among v.pressed) := fun _ _ => ⟨[e], rfl⟩

section Untouched

variable (hv : v.entered = [])
include hv

theorem answers_entered? (e : Element) : (entered? e).Answers v none := by
  intro session shown
  refine ⟨[e], ?_⟩
  change (Except.ok (Entries.get? v.entered e.name), _) = _
  rw [hv]
  rfl

theorem answers_textBox (e : Element) :
    (textBox e).Answers v ((e.property? "value").getD (.text "")) :=
  (answers_entered? hv e).bind (answers_pure _)

theorem answers_checkbox (e : Element) :
    (checkbox e).Answers v ((e.property? "value").getD (.bool false)) :=
  (answers_entered? hv e).bind (answers_pure _)

theorem answers_choice (e : Element) : (choice e).Answers v (initialOption e) :=
  (answers_entered? hv e).bind (answers_pure _)

end Untouched

end Drawing

namespace Designer

open Drawing Element

/-- What the boxes hold for a field, with given texts for what is no text itself. -/
def formFields (field : Value) (default low high : String) (options : Option String) :
    List (String × Value) :=
  [("label", entryOr field "label" (.text "")), ("key", entryOr field "key" (.text "")),
    ("type", field.getOrNull "type"), ("placeholder", content field "placeholder"),
    ("helpText", content field "helpText"),
    ("required", .bool (field.getOrNull "required").isTrue), ("defaultValue", .text default),
    ("min", .text low), ("max", .text high),
    ("regex", content (field.getOrNull "validation") "regex")]
  ++ (options.map fun s => ("options", .text s)).toList
  ++ [("visibleWhen", content field "visibleWhen"), ("computed", content field "computed")]

def formOf (field : Value) (default low high : String) (options : Option String) : Value :=
  .ofFields (formFields field default low high options)

theorem entry_formOf {field w : Value} {default low high n : String} {options : Option String}
    (h : (n, w) ∈ formFields field default low high options) :
    (formOf field default low high options).entry n = .ok w := by
  refine Value.entry_eq_ok_iff.2 (Entries.get?_ofFields ?_ h)
  cases options <;> simp [formFields]

/-- The options of a field as they are shown, if its type has a box for them. -/
def shownOptions (field : Value) : Except Failure (Option String) :=
  if (FieldType.ofValue? (field.getOrNull "type")).any FieldType.isChoice then
    (Inspector.optionsText (field.getOrNull "options")).map some
  else .ok none

/-- The form of a field, filled with what its boxes show. -/
def prefilled (field : Value) : Except Failure Value := do
  let default ← Inspector.defaultText (field.getOrNull "defaultValue")
  let low ← Inspector.numberText ((field.getOrNull "validation").getOrNull "min")
  let high ← Inspector.numberText ((field.getOrNull "validation").getOrNull "max")
  let options ← shownOptions field
  return formOf field default low high options

theorem prefilled_eq_ok {field form : Value} :
    prefilled field = .ok form ↔ ∃ default low high options,
      Inspector.defaultText (field.getOrNull "defaultValue") = .ok default ∧
        Inspector.numberText ((field.getOrNull "validation").getOrNull "min") = .ok low ∧
          Inspector.numberText ((field.getOrNull "validation").getOrNull "max") = .ok high ∧
            shownOptions field = .ok options ∧ form = formOf field default low high options := by
  unfold prefilled
  simp only [Result.bind_eq_ok]
  constructor
  · rintro ⟨default, hdefault, low, hlow, high, hhigh, options, hoptions, h⟩
    exact ⟨default, low, high, options, hdefault, hlow, hhigh, hoptions, (Except.ok.inj h).symm⟩
  · rintro ⟨default, low, high, options, hdefault, hlow, hhigh, hoptions, rfl⟩
    exact ⟨default, hdefault, low, hlow, high, hhigh, options, hoptions, rfl⟩

/-- The choice of a type starts with the type of the field. -/
theorem initialOption_type (type : FieldType) (name : String) :
    initialOption (control "selectbox" "Type"
      ([key name, ("index", .int (((FieldType.all.idxOf? type).getD 0 : Nat) : Int))]
        ++ typeProperties)) = .text type.name := by
  cases type <;> rfl

/-- While nothing has been entered, the form is the one that the boxes were filled with. -/
theorem drawForm_answers {v : Visit} (hv : v.entered = []) {field form : Value} {type : FieldType}
    (htype : field.entry "type" = .ok (.text type.name)) (hform : prefilled field = .ok form)
    (start : String) :
    (drawForm field start).Answers v (form, (Value.text "💾 Apply").among v.pressed) := by
  obtain ⟨default, low, high, options, hdefault, hlow, hhigh, hoptions, rfl⟩ :=
    prefilled_eq_ok.1 hform
  have hget : field.getOrNull "type" = .text type.name := by
    rw [Value.getOrNull, Value.entry_eq_ok_iff.1 htype]
    rfl
  have hknown : FieldType.ofValue? (.text type.name) = some type := by cases type <;> rfl
  have hbound : ∀ {n s : String},
      Inspector.numberText ((field.getOrNull "validation").getOrNull n) = .ok s →
        (Value.text <$> Drawing.ofExcept
          (Inspector.numberText ((field.getOrNull "validation").getOrNull n))).Answers v
            (.text s) :=
    fun h => (answers_ofExcept h).bind (answers_pure _)
  rw [formOf, formFields, hget]
  rw [shownOptions, hget, hknown] at hoptions
  unfold drawForm
  dsimp only
  refine (answers_add _).bind ?_
  refine (answers_textBox hv _).bind ?_
  refine (answers_textBox hv _).bind ?_
  refine (answers_ofExcept htype).bind ?_
  rw [hknown]
  refine (answers_choice hv _).bind ?_
  rw [Option.bind_some, initialOption_type]
  refine (answers_textBox hv _).bind ?_
  refine (answers_textBox hv _).bind ?_
  refine (answers_checkbox hv _).bind ?_
  refine (answers_ofExcept hdefault).bind ?_
  refine (answers_textBox hv _).bind ?_
  refine (answers_add _).bind ?_
  refine (hbound hlow).bind ?_
  refine (answers_textBox hv _).bind ?_
  refine (hbound hhigh).bind ?_
  refine (answers_textBox hv _).bind ?_
  refine (answers_textBox hv _).bind ?_
  split
  · next hchoice =>
      rw [if_pos hchoice] at hoptions
      obtain ⟨held, hheld, rfl⟩ := Result.map_eq_ok.1 hoptions
      refine (answers_ofExcept hheld).bind ?_
      refine (answers_textBox hv _).bind ?_
      refine (answers_pure _).bind ?_
      refine (answers_textBox hv _).bind ?_
      refine (answers_textBox hv _).bind ?_
      exact (answers_button _).bind (answers_pure _)
  · next hchoice =>
      rw [if_neg hchoice] at hoptions
      obtain rfl := Except.ok.inj hoptions
      refine (answers_pure _).bind ?_
      refine (answers_textBox hv _).bind ?_
      refine (answers_textBox hv _).bind ?_
      exact (answers_button _).bind (answers_pure _)

end Designer

end FormDesigner
