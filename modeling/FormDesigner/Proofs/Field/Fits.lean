import FormDesigner.Proofs.Schema.Shape

/-!
# Fitting fields

A field fits if its type is known, its own attributes are as its type declares them, and everything
that it owns fits. This is what the check of shapes accepts. A fitting field keeps fitting when it
gets another id, another key, or fitting fields in the place of what it owned, and so does what JSON
keeps of it.
-/

namespace FormDesigner

namespace FieldType

open Shape

/-- The attributes that fields of a type have, what they own aside. -/
def declared (type : FieldType) : List Attribute := shared ++ special type []

/-- An attribute is declared once. -/
theorem declared_unique {type : FieldType} {a b : Attribute} (ha : a ∈ type.declared)
    (hb : b ∈ type.declared) (h : a.name = b.name) : a = b := by
  have hnodup : (type.declared.map Attribute.name).Nodup := by cases type <;> decide
  exact List.inj_on_of_nodup_map hnodup ha hb h

/-- Types whose fields own others. -/
def isOwner (type : FieldType) : Prop := type = .section ∨ type = .array

variable {type : FieldType} {es : Entries} {owned : List Problem}

theorem attributes_special_iff :
    attributes (shared ++ special type owned) es = [] ↔
      attributes type.declared es = [] ∧ (type.isOwner → owned = []) := by
  constructor
  · intro h
    obtain ⟨-, present, valid⟩ := attributes_eq_nil_iff.1 h
    have howned : type.isOwner → owned = [] := by
      rintro (rfl | rfl)
      · obtain ⟨v, hv⟩ := present _ (List.mem_append_right _ (List.mem_singleton.2 rfl)) rfl
        have := valid _ (List.mem_append_right _ (List.mem_singleton.2 rfl)) v hv
        dsimp only at this
        split at this
        · exact this
        · exact absurd this here_ne_nil
      · obtain ⟨v, hv⟩ := present _ (List.mem_append_right _ (List.mem_singleton.2 rfl)) rfl
        exact valid _ (List.mem_append_right _ (List.mem_singleton.2 rfl)) v hv
    refine ⟨?_, howned⟩
    by_cases howner : type.isOwner
    · rwa [howned howner] at h
    · cases type with
      | «section» => exact absurd (.inl rfl) howner
      | array => exact absurd (.inr rfl) howner
      | _ => exact h
  · rintro ⟨h, howned⟩
    by_cases howner : type.isOwner
    · rwa [howned howner]
    · cases type with
      | «section» => exact absurd (.inl rfl) howner
      | array => exact absurd (.inr rfl) howner
      | _ => exact h

end FieldType

namespace Value

open Shape (attributes)

/-- A field of a known type, shaped as its type asks for, that owns only such fields. -/
inductive Fits : Value → Prop
  | intro {es : Entries} {type : FieldType}
      (kind : Entries.get? es (.text "type") = some (.text type.name))
      (own : attributes type.declared es = [])
      (children : ∀ c ∈ (Value.map es).childValues, Fits c)
      (template : ∀ t ∈ (Value.map es).templateValue?, Fits t) : Fits (.map es)

variable {v w : Value} {es : Entries} {type : FieldType} {n : String}

theorem isSection_map_iff (kind : Entries.get? es (.text "type") = some (.text type.name)) :
    (Value.map es).isSection = true ↔ type = .section := by
  have htype : (Value.map es).getOrNull "type" = .text type.name := by
    rw [getOrNull, get?_map, kind, Option.getD_some]
  rw [isSection_iff, htype]
  refine ⟨fun h => FieldType.name_injective (text.inj h.2), ?_⟩
  rintro rfl
  exact ⟨rfl, rfl⟩

theorem isArray_map_iff (kind : Entries.get? es (.text "type") = some (.text type.name)) :
    (Value.map es).isArray = true ↔ type = .array := by
  have htype : (Value.map es).getOrNull "type" = .text type.name := by
    rw [getOrNull, get?_map, kind, Option.getD_some]
  rw [isArray_iff, htype]
  refine ⟨fun h => FieldType.name_injective (text.inj h.2), ?_⟩
  rintro rfl
  exact ⟨rfl, rfl⟩

theorem ofChildren_eq_nil_iff {fs : List Field} {i : Nat} :
    Shape.ofChildren i fs = [] ↔ ∀ f ∈ fs, Shape.field f = [] := by
  induction fs generalizing i with
  | nil => simp [Shape.ofChildren]
  | cons f fs ih =>
      rw [Shape.ofChildren, List.append_eq_nil_iff, Shape.under_eq_nil_iff, ih,
        List.forall_mem_cons]

/-- The shape of a field is accepted if its type is known, its attributes are as declared, and what
it owns, if its type owns anything, is accepted. -/
private theorem field_map_eq_nil_iff {fs : List Field} {f : Option Field} :
    Shape.field (.node (.map es) fs f) = [] ↔
      ∃ type : FieldType, Entries.get? es (.text "type") = some (.text type.name) ∧
        attributes type.declared es = [] ∧
          (type.isOwner →
            (if type = .array then Shape.ofTemplate f else Shape.ofChildren 0 fs) = []) := by
  constructor
  · intro h
    unfold Shape.field at h
    dsimp only at h
    split at h
    · exact absurd h Shape.here_ne_nil
    rename_i t kind
    split at h
    · exact absurd h Shape.here_ne_nil
    rename_i type htype
    obtain rfl := Shape.typeOf?_eq_some_iff.1 htype
    exact ⟨type, kind, FieldType.attributes_special_iff.1 (Shape.under_eq_nil_iff.1 h)⟩
  · rintro ⟨type, kind, h⟩
    rw [Shape.field, kind]
    simp only [Shape.typeOf?_eq_some_iff.2 rfl, Shape.under_eq_nil_iff]
    exact FieldType.attributes_special_iff.2 h

/-- The fields whose shape is accepted are those that fit. -/
theorem fits_iff : v.Fits ↔ Shape.field (.ofValue v) = [] := by
  induction v using owned_induction with
  | node v ihChildren ihTemplate =>
      have hchildren : Shape.ofChildren 0 (v.childValues.map Field.ofValue) = [] ↔
          ∀ c ∈ v.childValues, c.Fits := by
        rw [ofChildren_eq_nil_iff, List.forall_mem_map]
        exact forall₂_congr fun c hc => (ihChildren c hc).symm
      have htemplate : Shape.ofTemplate (v.templateValue?.map Field.ofValue) = [] ↔
          ∀ t ∈ v.templateValue?, t.Fits := by
        cases ht : v.templateValue? with
        | none => simp [Shape.ofTemplate]
        | some t => simpa [Shape.ofTemplate] using (ihTemplate t ht).symm
      rw [Field.ofValue_eq]
      constructor
      · intro h
        cases h with
        | intro kind own children template =>
            refine field_map_eq_nil_iff.2 ⟨_, kind, own, fun _ => ?_⟩
            split
            · exact htemplate.2 template
            · exact hchildren.2 children
      · intro h
        cases v with
        | map es =>
            obtain ⟨type, kind, own, howned⟩ := field_map_eq_nil_iff.1 h
            refine .intro kind own (fun c hc => ?_) (fun t ht => ?_)
            · obtain rfl := (isSection_map_iff kind).1 (mem_childValues hc).1
              have hnil := howned (.inl rfl)
              rw [if_neg (by decide)] at hnil
              exact hchildren.1 hnil c hc
            · have harray : type = .array := by
                by_contra hne
                rw [templateValue?, if_neg (mt (isArray_map_iff kind).1 hne)] at ht
                cases ht
              subst harray
              have hnil := howned (.inr rfl)
              rw [if_pos rfl] at hnil
              exact htemplate.1 hnil t ht
        | _ => exact absurd h Shape.here_ne_nil

namespace Fits

theorem isMap (h : v.Fits) : v.isMap = true := by
  cases h
  rfl

theorem children (h : v.Fits) : ∀ c ∈ v.childValues, c.Fits := by
  cases h with
  | intro _ _ children => exact children

theorem template (h : v.Fits) : ∀ t ∈ v.templateValue?, t.Fits := by
  cases h with
  | intro _ _ _ template => exact template

/-- The attributes that the check of shapes finds in every field. -/
theorem getOrNull_of_shared (h : v.Fits) (n : String) (check : Shape.Check)
    (hn : ⟨n, true, check⟩ ∈ Shape.shared) : check (v.getOrNull n) = [] := by
  cases h with
  | @intro es type kind own =>
      obtain ⟨-, present, valid⟩ := Shape.attributes_eq_nil_iff.1 own
      obtain ⟨w, hw⟩ := present _ (List.mem_append_left _ hn) rfl
      have := valid _ (List.mem_append_left _ hn) w hw
      rwa [getOrNull, get?_map, hw, Option.getD_some]

theorem id (h : v.Fits) : ∃ s, s ≠ "" ∧ v.getOrNull "id" = .text s :=
  Shape.filledText_eq_nil_iff.1
    (h.getOrNull_of_shared "id" Shape.filledText (by simp [Shape.shared]))

theorem key (h : v.Fits) : ∃ s, s ≠ "" ∧ v.getOrNull "key" = .text s :=
  Shape.filledText_eq_nil_iff.1
    (h.getOrNull_of_shared "key" Shape.filledText (by simp [Shape.shared]))

theorem exists_type (h : v.Fits) : ∃ type : FieldType, v.getOrNull "type" = .text type.name := by
  cases h with
  | @intro es type kind => exact ⟨type, congrArg (·.getD .null) kind⟩

theorem label (h : v.Fits) : ∃ s, v.getOrNull "label" = .text s :=
  Shape.text_eq_nil_iff.1 (h.getOrNull_of_shared "label" Shape.text (by simp [Shape.shared]))

/-! ### Replacing attributes -/

private theorem put_own {es : Entries} {type : FieldType} (hes : (Value.map es).Fits)
    (kind : Entries.get? es (.text "type") = some (.text type.name)) (htype : n ≠ "type")
    {a : Shape.Attribute} (ha : a ∈ type.declared) (hn : a.name = n) (hw : a.check w = [])
    (children : ∀ c ∈ ((Value.map es).put n w).childValues, c.Fits)
    (template : ∀ t ∈ ((Value.map es).put n w).templateValue?, t.Fits) :
    ((Value.map es).put n w).Fits := by
  cases hes with
  | @intro _ type' kind' own =>
      obtain rfl : type' = type :=
        FieldType.name_injective (Value.text.inj (Option.some.inj (kind'.symm.trans kind)))
      refine .intro ?_ (Shape.attributes_insert own ⟨a, ha, hn⟩ fun b hb hbn => ?_)
        children template
      · rwa [Entries.get?_insert_of_ne htype.symm]
      · rwa [FieldType.declared_unique hb ha (hbn.trans hn.symm)]

/-- Another id or key that is not empty. -/
theorem put_name (h : v.Fits) (hn : n = "id" ∨ n = "key") {s : String} (hs : s ≠ "") :
    (v.put n (.text s)).Fits := by
  have hchildren : n ≠ "children" := by rcases hn with rfl | rfl <;> decide
  have hof : n ≠ "of" := by rcases hn with rfl | rfl <;> decide
  have htype : n ≠ "type" := by rcases hn with rfl | rfl <;> decide
  have hshared : (⟨n, true, Shape.filledText⟩ : Shape.Attribute) ∈ Shape.shared := by
    rcases hn with rfl | rfl <;> simp [Shape.shared]
  have hvalues := h.children
  have htemplate := h.template
  cases h with
  | @intro es type kind own =>
      refine put_own (.intro kind own hvalues htemplate) kind htype
        (List.mem_append_left _ hshared) rfl (Shape.filledText_eq_nil_iff.2 ⟨s, hs, rfl⟩) ?_ ?_
      · rwa [childValues_put_of_ne htype hchildren]
      · rwa [templateValue?_put_of_ne htype hof]

/-- Other children of a section. -/
theorem put_children (h : v.Fits) (hv : v.isSection = true) {cs : List Value}
    (hcs : ∀ c ∈ cs, c.Fits) : (v.put "children" (.list cs)).Fits := by
  have hvalues := h.children
  have htemplate := h.template
  cases h with
  | @intro es type kind own =>
      obtain rfl := (isSection_map_iff kind).1 hv
      refine put_own (.intro kind own hvalues htemplate) kind (by decide)
        (List.mem_append_right _ (List.mem_singleton.2 rfl)) rfl rfl ?_ ?_
      · rwa [childValues_put_children hv]
      · rwa [templateValue?_put_of_ne (by decide) (by decide)]

/-- Another template of an array. -/
theorem put_template (h : v.Fits) (hv : v.isArray = true) (hw : w.Fits) :
    (v.put "of" w).Fits := by
  have hvalues := h.children
  have htemplate := h.template
  cases h with
  | @intro es type kind own =>
      obtain rfl := (isArray_map_iff kind).1 hv
      refine put_own (.intro kind own hvalues htemplate) kind (by decide)
        (List.mem_append_right _ (List.mem_singleton.2 rfl)) rfl rfl ?_ ?_
      · rwa [childValues_put_of_ne (by decide) (by decide)]
      · intro t ht
        rw [templateValue?, isArray_put (by decide), if_pos hv, get?_put_self rfl] at ht
        exact Option.some.inj ht ▸ hw

/-! ### What JSON keeps of a field -/

/-- The checks of the attributes that are no other fields and hold no options. -/
def ownChecks : List Shape.Check :=
  [Shape.filledText, Shape.text, Shape.optional Shape.text, Shape.optional Shape.boolean,
    Shape.optional Shape.defaultValue, Shape.optional Shape.rules]

theorem declared_cases {type : FieldType} {a : Shape.Attribute} (ha : a ∈ type.declared) :
    a.name = "type" ∨ a.name = "children" ∧ type = .section ∨ a.name = "of" ∧ type = .array ∨
      a.name = "options" ∧ a.check = Shape.options ∨ a.check ∈ ownChecks := by
  have hshared : ∀ a ∈ Shape.shared, a.name = "type" ∨ a.check ∈ ownChecks := by
    simp [Shape.shared, ownChecks]
  rcases List.mem_append.1 ha with ha | ha
  · rcases hshared a ha with h | h
    · exact .inl h
    · exact .inr (.inr (.inr (.inr h)))
  · cases type with
    | select | multiselect | radio =>
        obtain rfl := List.mem_singleton.1 ha
        exact .inr (.inr (.inr (.inl ⟨rfl, rfl⟩)))
    | «section» =>
        obtain rfl := List.mem_singleton.1 ha
        exact .inr (.inl ⟨rfl, rfl⟩)
    | array =>
        obtain rfl := List.mem_singleton.1 ha
        exact .inr (.inr (.inl ⟨rfl, rfl⟩))
    | _ => exact absurd ha List.not_mem_nil

private theorem isPlain_ownChecks : ∀ check ∈ ownChecks, Shape.IsPlain check := by
  simp only [ownChecks, List.forall_mem_cons]
  exact ⟨Shape.isPlain_filledText, Shape.isPlain_text, Shape.isPlain_text.optional,
    Shape.isPlain_boolean.optional, Shape.isPlain_defaultValue.optional,
    Shape.isPlain_rules.optional, List.forall_mem_nil _⟩

private theorem plain_cases {type : FieldType} {a : Shape.Attribute} (ha : a ∈ type.declared) :
    a.name = "type" ∨ a.name = "children" ∧ type = .section ∨ a.name = "of" ∧ type = .array ∨
      Shape.IsPlain a.check := by
  rcases declared_cases ha with h | h | h | ⟨-, h⟩ | h
  · exact .inl h
  · exact .inr (.inl h)
  · exact .inr (.inr (.inl h))
  · exact .inr (.inr (.inr (h ▸ Shape.isPlain_options)))
  · exact .inr (.inr (.inr (isPlain_ownChecks _ h)))

end Fits

/-- The children of a section, the items of what stands under that name. -/
theorem childValues_eq (hv : v.isSection = true) {list : Value}
    (hlist : v.get? "children" = some list)
    {xs : List Value} (hxs : Shape.itemsOf? list = some xs) : v.childValues = xs := by
  rw [childValues, if_pos hv, getOrNull, hlist, Option.getD_some, hxs, Option.getD_some]

namespace Fits

/-- The children of a fitting section stand in a list of some kind. -/
theorem exists_children {es : Entries} (h : (Value.map es).Fits)
    (kind : Entries.get? es (.text "type") = some (.text FieldType.section.name)) :
    ∃ list xs, Entries.get? es (.text "children") = some list ∧ Shape.itemsOf? list = some xs ∧
      (Value.map es).childValues = xs := by
  cases h with
  | @intro _ type kind' own =>
      obtain rfl : type = .section :=
        FieldType.name_injective (Value.text.inj (Option.some.inj (kind'.symm.trans kind)))
      obtain ⟨-, present, valid⟩ := Shape.attributes_eq_nil_iff.1 own
      have hmem : ∃ a ∈ FieldType.section.declared, a.name = "children" ∧ a.required = true ∧
          ∀ v, a.check v = [] → (Shape.itemsOf? v).isSome = true := by
        refine ⟨_, List.mem_append_right _ (List.mem_singleton.2 rfl), rfl, rfl, fun v hv => ?_⟩
        dsimp only at hv
        split at hv
        · assumption
        · exact absurd hv Shape.here_ne_nil
      obtain ⟨a, ha, hname, hrequired, hcheck⟩ := hmem
      obtain ⟨list, hlist⟩ := present a ha hrequired
      obtain ⟨xs, hxs⟩ := Option.isSome_iff_exists.1 (hcheck list (valid a ha list hlist))
      rw [hname] at hlist
      exact ⟨list, xs, hlist, hxs, childValues_eq ((isSection_map_iff kind).2 rfl) hlist hxs⟩

/-- All keys in a fitting field are text, and it holds no dates, moments or octets. -/
theorem undated (h : v.Fits) (hv : v.IsProper) : v.IsIn .undated := by
  induction h with
  | @intro es type kind own children template ihChildren ihTemplate =>
      refine Shape.attributes_isIn own hv fun a ha w hw => ?_
      have hcheck := (Shape.attributes_eq_nil_iff.1 own).2.2 a ha w hw
      rcases plain_cases ha with hname | ⟨hname, rfl⟩ | ⟨hname, rfl⟩ | hplain
      · rw [hname, kind] at hw
        rw [← Option.some.inj hw]
        exact .text _
      · obtain ⟨list, xs, hlist, hxs, hvalues⟩ :=
          exists_children (.intro kind own children template) kind
        rw [hname, hlist] at hw
        obtain rfl := Option.some.inj hw
        have hkeyed : ∀ x ∈ xs, x.IsIn .undated := fun x hx =>
          ihChildren x (hvalues ▸ hx) (hv.childValues x (hvalues ▸ hx))
        rcases itemsOf?_eq_some hxs with rfl | rfl | rfl
        · exact .list hkeyed
        · exact .tuple trivial hkeyed
        · exact .set trivial hkeyed
      · have ht : w ∈ (Value.map es).templateValue? := by
          rw [templateValue?, if_pos ((isArray_map_iff kind).2 rfl), get?_map, ← hname]
          exact hw
        exact ihTemplate w ht (hv.templateValue? w ht)
      · exact hplain.undated hcheck (hv.get? (n := a.name) hw)

theorem textKeyed (h : v.Fits) (hv : v.IsProper) : v.IsIn .textKeyed :=
  (h.undated hv).textKeyed_of_undated

end Fits

variable {D : Domain} {sorted : Bool}

theorem getOrNull_image (hv : v.IsIn D) (n : String) :
    (Json.image sorted v).getOrNull n = Json.image sorted (v.getOrNull n) := by
  rw [getOrNull, Json.get?_image hv, getOrNull]
  cases v.get? n <;> rfl

theorem image_eq_text_iff {s : String} : Json.image sorted v = .text s ↔ v = .text s := by
  cases v with
  | float x => cases x <;> simp [Json.image]
  | list | tuple | set | map => simp [Json.image]
  | _ => simp [Json.image]

theorem isMap_image : (Json.image sorted v).isMap = v.isMap := by
  cases v with
  | float x => cases x <;> rfl
  | list | tuple | set | map => simp [Json.image, isMap]
  | _ => rfl

theorem hasType_image (hv : v.IsIn D) (n : String) :
    (Json.image sorted v).hasType n = v.hasType n := by
  rw [hasType, hasType, isMap_image, getOrNull_image hv, Bool.eq_iff_iff, Bool.and_eq_true,
    Bool.and_eq_true, equals_text_right_iff, equals_text_right_iff, image_eq_text_iff]

theorem childValues_image (hv : v.IsIn D) :
    (Json.image sorted v).childValues = v.childValues.map (Json.image sorted) := by
  rw [childValues, childValues, isSection, isSection, hasType_image hv, getOrNull_image hv,
    Shape.itemsOf?_image]
  split
  · cases Shape.itemsOf? (v.getOrNull "children") <;> rfl
  · rfl

theorem templateValue?_image (hv : v.IsIn D) :
    (Json.image sorted v).templateValue? = v.templateValue?.map (Json.image sorted) := by
  rw [templateValue?, templateValue?, isArray, isArray, hasType_image hv, Json.get?_image hv]
  split
  · rfl
  · rfl

/-- What JSON keeps of a fitting field fits. -/
theorem Fits.image (h : v.Fits) (hv : v.IsProper) : (Json.image sorted v).Fits := by
  induction h with
  | @intro es type kind own children template ihChildren ihTemplate =>
      have hchildren : ∀ c ∈ (Json.image sorted (.map es)).childValues, c.Fits := by
        rw [childValues_image hv]
        exact List.forall_mem_map.2 fun c hc => ihChildren c hc (hv.childValues c hc)
      have htemplate : ∀ t ∈ (Json.image sorted (.map es)).templateValue?, t.Fits := by
        rw [templateValue?_image hv]
        intro t ht
        obtain ⟨u, hu, rfl⟩ := Option.map_eq_some_iff.1 ht
        exact ihTemplate u hu (hv.templateValue? u hu)
      have hkind : (Json.image sorted (.map es)).get? "type" = some (.text type.name) := by
        rw [Json.get?_image hv, get?_map, kind]
        rfl
      rw [Json.image_map] at hchildren htemplate hkind ⊢
      refine .intro hkind (Shape.attributes_image sorted own hv fun a ha w hw => ?_) hchildren
        htemplate
      have hcheck := (Shape.attributes_eq_nil_iff.1 own).2.2 a ha w hw
      have hproper := hv.get? (n := a.name) hw
      rcases plain_cases ha with hname | ⟨hname, rfl⟩ | ⟨hname, rfl⟩ | hplain
      · have hmem : (⟨"type", true, fun _ => []⟩ : Shape.Attribute) ∈ type.declared :=
          List.mem_append_left _ (by simp [Shape.shared])
        rw [FieldType.declared_unique ha hmem hname]
      · rw [FieldType.declared_unique ha (List.mem_append_right _ (List.mem_singleton.2 rfl)) hname]
          at hcheck ⊢
        dsimp only at hcheck ⊢
        rw [Shape.itemsOf?_image]
        split at hcheck
        · rename_i hxs
          rw [if_pos (by rwa [Option.isSome_map])]
        · exact absurd hcheck Shape.here_ne_nil
      · rw [FieldType.declared_unique ha (List.mem_append_right _ (List.mem_singleton.2 rfl)) hname]
      · exact hplain.image sorted hcheck hproper

end Value

theorem fieldProblems_eq_nil_iff {v : Value} : fieldProblems v = [] ↔ v.Fits := by
  rw [Value.fits_iff, fieldProblems]
  by_cases hmap : v.isMap = true
  · rw [if_pos hmap]
  · rw [if_neg hmap]
    exact iff_of_false Shape.here_ne_nil fun h => hmap (Value.fits_iff.2 h).isMap

end FormDesigner
