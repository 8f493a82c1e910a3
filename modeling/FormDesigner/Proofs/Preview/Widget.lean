import FormDesigner.Preview.Widget
import FormDesigner.Proofs.Form.Agreement

/-!
# What the widgets hold

Every field with a single value that is not computed takes over what its widget holds, if the widget
is there. So the values of a form after that are those before, with the values of some fields stored
one after the other. A value survives the way into a widget and back only if it has the form that
the type of the field gives to values.
-/

namespace FormDesigner

namespace Preview

open FormDesigner.Field (ofValue)
open Result

variable {v : Value} {state values : Entries}

theorem exists_type (h : v.Fits) :
    ∃ type : FieldType, v.getOrNull "type" = .text type.name ∧
      (v.getOrNull "type").asText?.bind FieldType.ofName? = some type := by
  cases h with
  | @intro es type kind =>
      have htype : (Value.map es).getOrNull "type" = .text type.name := by
        rw [Value.getOrNull, Value.get?_map, kind, Option.getD_some]
      refine ⟨type, htype, ?_⟩
      rw [htype]
      exact FieldType.ofName?_eq_some_iff.2 rfl

/-- The name of a field's widget. -/
def widgetName (v : Value) : String := "preview_" ++ ((v.getOrNull "id").asText?).getD ""

theorem widgetKey_eq (h : v.Fits) : widgetKey v = .ok (widgetName v) := by
  obtain ⟨id, -, hid⟩ := h.id
  rw [widgetKey, widgetName, hid, Form.entry_of_text hid]
  rfl

/-! ### Taking over what the widgets hold -/

/-- Whether the value of a field comes from its widget. -/
def isEntered (v : Value) : Bool := hasWidget (v.getOrNull "type") && !Field.hasComputed v

theorem followsWidget_eq (h : v.Fits) : followsWidget v = .ok (isEntered v) := by
  obtain ⟨type, htype, -⟩ := exists_type h
  rw [followsWidget, if_neg (by simp [h.isMap]), if_neg (by simp [htype, Value.isHashable])]
  rfl

theorem isEntered_of_isSection (h : v.isSection = true) : isEntered v = false := by
  obtain ⟨-, htype⟩ := Value.isSection_iff.1 h
  rw [isEntered, htype]
  rfl

theorem isEntered_of_isArray (h : v.isArray = true) : isEntered v = false := by
  obtain ⟨-, htype⟩ := Value.isArray_iff.1 h
  rw [isEntered, htype]
  rfl

theorem exists_entered (h : v.isMap = true) (held : Value) : ∃ w, entered v held = .ok w := by
  unfold entered
  rw [if_neg (by simp [h])]
  generalize (v.getOrNull "type").asText?.bind FieldType.ofName? = type
  rcases type with - | type
  · exact ⟨_, rfl⟩
  · cases type <;> cases held <;> exact ⟨_, rfl⟩

/-- What a field takes over from its widget. -/
def taken? (state : Entries) (v : Value) : Option Value :=
  if isEntered v then
    (Entries.get? state (.text (widgetName v))).bind fun held => (entered v held).toOption
  else none

/-- The values after a field has taken over what its widget holds. -/
def takeOver (state values : Entries) (v : Value) : Entries :=
  ((taken? state v).map (Entries.insert values (v.getOrNull "key"))).getD values

theorem takeOver_of_isSection (h : v.isSection = true) : takeOver state values v = values := by
  rw [takeOver, taken?, isEntered_of_isSection h]
  rfl

theorem syncAll_eq {fs : List Value}
    (hfs : ∀ f ∈ fs, ∀ values, syncField state values (ofValue f) =
      .ok (f.nodes.foldl (takeOver state) values)) :
    syncAll state values (fs.map ofValue) =
      .ok ((fs.flatMap Value.nodes).foldl (takeOver state) values) := by
  induction fs generalizing values with
  | nil =>
      rw [List.map_nil, syncAll]
      rfl
  | cons f fs ih =>
      obtain ⟨hf, hfs⟩ := List.forall_mem_cons.1 hfs
      rw [List.map_cons, syncAll, hf, ok_bind, ih hfs, List.flatMap_cons, List.foldl_append]

/-- By induction on what the field owns. A section takes over nothing itself; any other field has no
fields below it that are reached. -/
theorem syncField_eq (h : v.Fits) :
    syncField state values (ofValue v) = .ok (v.nodes.foldl (takeOver state) values) := by
  induction v using Value.owned_induction generalizing values with
  | node v ih _ =>
      rw [Field.ofValue_eq, syncField, Value.nodes_eq, List.foldl_cons]
      by_cases hsection : v.isSection = true
      · rw [if_pos hsection, Form.demandItems_of_fits h hsection, ok_bind,
          takeOver_of_isSection hsection]
        exact syncAll_eq fun f hf values => ih f hf (h.children f hf)
      · have hnone : v.childValues = [] := if_neg hsection
        rw [if_neg hsection, hnone, widgetKey_eq h, ok_bind, followsWidget_eq h, ok_bind, takeOver,
          taken?]
        cases isEntered v with
        | false => rfl
        | true =>
            rw [if_pos rfl, if_pos rfl]
            cases Entries.get? state (.text (widgetName v)) with
            | none => rfl
            | some held =>
                obtain ⟨w, hw⟩ := exists_entered h.isMap held
                dsimp only
                obtain ⟨key, -, hkey⟩ := h.key
                rw [Option.bind_some, hw, ok_bind, Form.entry_key_of_fits h, ok_bind, hkey]
                rfl

/-- Taking over what the widgets hold stores the values of some fields, in the order of the
fields. -/
theorem sync_eq {schema : Value} (hshape : Schema.HasShape schema) :
    sync state (schema.getOrNull "fields") values =
      .ok (((Schema.rootFields schema).flatMap Value.nodes).foldl (takeOver state) values) := by
  have hfault : (schema.getOrNull "fields").walkFault? = none := by
    rcases Value.itemsOf?_eq_some hshape.fields_eq with h | h | h <;> rw [h] <;> rfl
  rw [sync, hfault]
  exact (congrArg _ (Schema.forest_eq schema)).trans
    (syncAll_eq fun f hf values => syncField_eq (hshape.fits f hf))

/-! ### What is taken over -/

open Expression (valueAt)
open Form (Agree keyText)

variable {vs : List Value} {n : String} {w : Value}

section

-- A way of looking something up under a text that finds what is stored last.
variable (look : Entries → String → Option Value)
  (stores : ∀ es n w m,
    look (Entries.insert es (.text n) w) m = if m = n then some w else look es m)

include stores

theorem look_takeOver (h : v.Fits) :
    look (takeOver state values v) n =
      if n = keyText v then (taken? state v).or (look values n) else look values n := by
  obtain ⟨key, -, hkey⟩ := h.key
  rw [takeOver, hkey, Form.keyText_eq hkey]
  cases taken? state v with
  | none => rw [Option.none_or, ite_self]; rfl
  | some w => exact stores values key w n

/-- What stands under a key that no field takes over stays. -/
theorem look_foldl_takeOver_of_ne (hfits : ∀ v ∈ vs, v.Fits)
    (h : ∀ v ∈ vs, (taken? state v).isSome = true → keyText v ≠ n) :
    look (vs.foldl (takeOver state) values) n = look values n := by
  induction vs generalizing values with
  | nil => rfl
  | cons v vs ih =>
      obtain ⟨hself, hfits⟩ := List.forall_mem_cons.1 hfits
      obtain ⟨hv, hvs⟩ := List.forall_mem_cons.1 h
      rw [List.foldl_cons, ih hfits hvs, look_takeOver look stores hself]
      split
      · cases htaken : taken? state v with
        | none => rfl
        | some w => exact absurd ‹n = keyText v›.symm (hv (by rw [htaken]; rfl))
      · rfl

/-- What a field takes over stands under its key, if that is the key of no other field. -/
theorem look_foldl_takeOver (hfits : ∀ v ∈ vs, v.Fits) (hkeys : (vs.map keyText).Nodup)
    (hv : v ∈ vs) (htaken : taken? state v = some w) :
    look (vs.foldl (takeOver state) values) (keyText v) = some w := by
  induction vs generalizing values with
  | nil => cases hv
  | cons u vs ih =>
      obtain ⟨hself, hrest⟩ := List.forall_mem_cons.1 hfits
      obtain ⟨hnew, hdistinct⟩ := List.nodup_cons.1 hkeys
      rw [List.foldl_cons]
      rcases List.mem_cons.1 hv with rfl | hv
      · rw [look_foldl_takeOver_of_ne look stores hrest, look_takeOver look stores hself,
          if_pos rfl, htaken, Option.some_or]
        intro u hu _ heq
        exact hnew (List.mem_map.2 ⟨u, hu, heq⟩)
      · exact ih hrest hdistinct hv

end

/-! ### Into a widget and back -/

variable {field : Value} {today : Date} {type : FieldType}

/-- What becomes of a value that goes into the widget of a field and back. -/
def settle (today : Date) (field v : Value) : Except Failure Value := do
  entered field (← shown today field v)

/-- The values that a widget for a type gives back as they are. -/
def IsSettled (today : Date) (field v : Value) : FieldType → Prop
  | .text => ∃ s, v = .text s
  | .number => v = .null ∨ (∃ x, v = .float x ∧ integral x = .float x) ∨
      ∃ n x, v = .int n ∧ Binary64.ofInt? n = some x ∧ integral x = .int n
  | .date => v = .null ∨ ∃ d, v = .text d.isoText ∧ dateShown today v = .ok (.date d)
  | .checkbox => ∃ b, v = .bool b
  | .multiselect => ∃ xs, v = .list xs
  | _ => ∃ values, optionValues field = .ok values ∧ (v.among values = true ∨ v = .null)

theorem integral_cases (x : Binary64) :
    integral x = .float x ∨ ∃ n, integral x = .int n := by
  unfold integral
  split
  · cases x.truncate? with
    | none => exact .inl rfl
    | some n => exact .inr ⟨n, rfl⟩
  · exact .inl rfl

theorem numberOfText_cases (s : String) :
    numberOfText s = .null ∨ ∃ x, numberOfText s = .float x := by
  unfold numberOfText
  cases Text.readFloat? s with
  | none => exact .inl rfl
  | some x => exact .inr ⟨x, rfl⟩

/-- A widget for numbers shows a floating-point number or nothing. -/
theorem numberShown_cases (hw : numberShown v = .ok w) : w = .null ∨ ∃ x, w = .float x := by
  unfold numberShown at hw
  split at hw
  · split at hw
    · exact .inr ⟨_, (Except.ok.inj hw).symm⟩
    · cases hw
  · exact .inr ⟨_, (Except.ok.inj hw).symm⟩
  · exact Except.ok.inj hw ▸ numberOfText_cases _
  · obtain rfl := Except.ok.inj hw
    split
    · exact numberOfText_cases _
    · exact .inl rfl
  · exact .inl (Except.ok.inj hw).symm

/-- A widget for dates shows a date or nothing. -/
theorem dateShown_cases (hw : dateShown today v = .ok w) : w = .null ∨ ∃ d, w = .date d := by
  unfold dateShown at hw
  split at hw
  · exact .inr ⟨_, (Except.ok.inj hw).symm⟩
  · exact .inr ⟨_, (Except.ok.inj hw).symm⟩
  · split at hw
    · exact .inl (Except.ok.inj hw).symm
    · unfold writtenDate at hw
      split at hw
      · exact .inr ⟨_, (Except.ok.inj hw).symm⟩
      · exact .inl (Except.ok.inj hw).symm
      · cases hw
  · exact .inl (Except.ok.inj hw).symm

section

variable (h : field.isMap = true)

include h

theorem settle_text_iff
    (htype : (field.getOrNull "type").asText?.bind FieldType.ofName? = some .text) :
    settle today field v = .ok v ↔ ∃ s, v = .text s := by
  have hsettle : settle today field v =
      if v.isNull then .ok (.text "") else v.plain.map .text := by
    simp only [settle, shown, entered, htype, h, Bool.not_true, Bool.false_eq_true, if_false]
    cases v.isNull with
    | true => rfl
    | false => cases v.plain <;> rfl
  rw [hsettle]
  constructor
  · intro heq
    split at heq
    · exact ⟨_, (Except.ok.inj heq).symm⟩
    · obtain ⟨s, -, hs⟩ := map_eq_ok.1 heq
      exact ⟨s, hs.symm⟩
  · rintro ⟨s, rfl⟩
    rfl

theorem settle_number_iff
    (htype : (field.getOrNull "type").asText?.bind FieldType.ofName? = some .number) :
    settle today field v = .ok v ↔ v = .null ∨ (∃ x, v = .float x ∧ integral x = .float x) ∨
      ∃ n x, v = .int n ∧ Binary64.ofInt? n = some x ∧ integral x = .int n := by
  have hnull : entered field .null = .ok .null := by
    simp only [entered, htype, h, Bool.not_true, Bool.false_eq_true, if_false]
  have hfloat (x : Binary64) : entered field (.float x) = .ok (integral x) := by
    simp only [entered, htype, h, Bool.not_true, Bool.false_eq_true, if_false]
  have hsettle : settle today field v = numberShown v >>= entered field := by
    simp only [settle, shown, htype, h, Bool.not_true, Bool.false_eq_true, if_false]
  rw [hsettle, bind_eq_ok]
  constructor
  · rintro ⟨w, hw, heq⟩
    rcases numberShown_cases hw with rfl | ⟨x, rfl⟩
    · exact .inl (Except.ok.inj (heq.symm.trans hnull))
    · right
      have hx := Except.ok.inj (heq.symm.trans (hfloat x))
      rcases integral_cases x with hi | ⟨n, hn⟩
      · exact .inl ⟨x, hx.trans hi, hi⟩
      · refine .inr ⟨n, x, hx.trans hn, ?_, hn⟩
        rw [hx, hn, numberShown] at hw
        split at hw
        · rename_i heq
          rw [heq, Value.float.inj (Except.ok.inj hw)]
        · cases hw
  · rintro (rfl | ⟨x, rfl, hi⟩ | ⟨n, x, rfl, hx, hi⟩)
    · exact ⟨.null, rfl, hnull⟩
    · exact ⟨.float x, rfl, (hfloat x).trans (congrArg _ hi)⟩
    · refine ⟨.float x, ?_, (hfloat x).trans (congrArg _ hi)⟩
      rw [numberShown, hx]

theorem settle_date_iff
    (htype : (field.getOrNull "type").asText?.bind FieldType.ofName? = some .date) :
    settle today field v = .ok v ↔
      v = .null ∨ ∃ d, v = .text d.isoText ∧ dateShown today v = .ok (.date d) := by
  have hnull : entered field .null = .ok .null := by
    simp only [entered, htype, h, Bool.not_true, Bool.false_eq_true, if_false]
  have hdate (d : Date) : entered field (.date d) = .ok (.text d.isoText) := by
    simp only [entered, htype, h, Bool.not_true, Bool.false_eq_true, if_false]
  have hsettle : settle today field v = dateShown today v >>= entered field := by
    simp only [settle, shown, htype, h, Bool.not_true, Bool.false_eq_true, if_false]
  rw [hsettle, bind_eq_ok]
  constructor
  · rintro ⟨w, hw, heq⟩
    rcases dateShown_cases hw with rfl | ⟨d, rfl⟩
    · exact .inl (Except.ok.inj (heq.symm.trans hnull))
    · exact .inr ⟨d, Except.ok.inj (heq.symm.trans (hdate d)), hw⟩
  · rintro (rfl | ⟨d, hv, hd⟩)
    · exact ⟨.null, rfl, hnull⟩
    · exact ⟨.date d, hd, hv ▸ hdate d⟩

theorem settle_checkbox_iff
    (htype : (field.getOrNull "type").asText?.bind FieldType.ofName? = some .checkbox) :
    settle today field v = .ok v ↔ ∃ b, v = .bool b := by
  have hsettle : settle today field v = .ok (.bool v.isTrue) := by
    simp only [settle, shown, entered, htype, h, Bool.not_true, Bool.false_eq_true, if_false]
    rfl
  rw [hsettle]
  constructor
  · intro heq
    exact ⟨_, (Except.ok.inj heq).symm⟩
  · rintro ⟨b, rfl⟩
    rfl

theorem settle_multiselect_iff
    (htype : (field.getOrNull "type").asText?.bind FieldType.ofName? = some .multiselect) :
    settle today field v = .ok v ↔ ∃ xs, v = .list xs := by
  have hsettle : settle today field v = .ok (.list (v.asSequence?.getD [])) := by
    simp only [settle, shown, entered, htype, h, Bool.not_true, Bool.false_eq_true, if_false]
    rfl
  rw [hsettle]
  constructor
  · intro heq
    exact ⟨_, (Except.ok.inj heq).symm⟩
  · rintro ⟨xs, rfl⟩
    rfl

theorem settle_choice_iff (hchoice : type = .select ∨ type = .radio)
    (htype : (field.getOrNull "type").asText?.bind FieldType.ofName? = some type) :
    settle today field v = .ok v ↔
      ∃ values, optionValues field = .ok values ∧ (v.among values = true ∨ v = .null) := by
  have hsettle : settle today field v =
      (optionValues field).map fun values => if v.among values then v else .null := by
    rcases hchoice with rfl | rfl <;>
    · simp only [settle, shown, entered, htype, h, Bool.not_true, Bool.false_eq_true, if_false]
      cases optionValues field with
      | error e => rfl
      | ok values =>
          rw [ok_bind, Except.map]
          cases v.among values <;> rfl
  rw [hsettle, map_eq_ok]
  refine exists_congr fun values => and_congr_right fun _ => ?_
  split
  · simp [*]
  · simp [*, eq_comm]

end

/-- A value survives the way into a widget and back exactly if it is settled. -/
theorem settle_eq_self_iff (h : field.isMap = true)
    (htype : (field.getOrNull "type").asText?.bind FieldType.ofName? = some type)
    (hwidget : hasWidget (field.getOrNull "type") = true) :
    settle today field v = .ok v ↔ IsSettled today field v type := by
  rw [hasWidget, htype] at hwidget
  cases type with
  | text => exact settle_text_iff h htype
  | number => exact settle_number_iff h htype
  | date => exact settle_date_iff h htype
  | checkbox => exact settle_checkbox_iff h htype
  | select => exact settle_choice_iff h (.inl rfl) htype
  | radio => exact settle_choice_iff h (.inr rfl) htype
  | multiselect => exact settle_multiselect_iff h htype
  | «section» => cases hwidget
  | array => cases hwidget

end Preview

end FormDesigner
