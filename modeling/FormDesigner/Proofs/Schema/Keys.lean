import FormDesigner.Proofs.Schema.Document

/-!
# The keys in a schema

Every mapping in a schema, at whatever level, has been checked against a list of attributes. So all
keys in a schema of the right shape are names of attributes.
-/

namespace FormDesigner

namespace Value

/-- All keys in a value, at every level, are texts of some kind. -/
inductive HasKeys (p : String → Prop) : Value → Prop
  | scalar {v : Value} (hv : v.isScalar = true) : HasKeys p v
  | list {xs : List Value} (items : ∀ x ∈ xs, HasKeys p x) : HasKeys p (.list xs)
  | map {es : Entries} (keys : ∀ e ∈ es, ∃ k, e.1 = .text k ∧ p k)
      (values : ∀ e ∈ es, HasKeys p e.2) : HasKeys p (.map es)

/-- Of what counts as a list, JSON has lists only. -/
theorem IsJson.eq_list {v : Value} (hv : v.IsJson) {xs : List Value}
    (h : Shape.itemsOf? v = some xs) : v = .list xs := by
  rcases itemsOf?_eq_some h with rfl | rfl | rfl
  · rfl
  · cases hv with
    | scalar hscalar => cases hscalar
    | tuple node => cases node
  · cases hv with
    | scalar hscalar => cases hscalar
    | set node => cases node

end Value

namespace Shape

/-- What the attributes of schemas, fields, options and rules are called. -/
def attributeNames : List String :=
  ["version", "fields", "id", "key", "label", "placeholder", "helpText", "required", "defaultValue",
    "validation", "visibleWhen", "computed", "type", "options", "children", "of", "value", "min",
    "max", "regex"]

/-- The keys in a value are names of attributes. -/
abbrev IsAttributed (v : Value) : Prop := v.HasKeys (· ∈ attributeNames)

/-- A check accepts no other keys. -/
def Names (check : Check) : Prop := ∀ {v : Value}, v.IsJson → check v = [] → IsAttributed v

variable {check : Check} {declared : List Attribute} {es : Entries} {v : Value}

theorem attributed_of_attributes (h : attributes declared es = []) (hes : (Value.map es).IsJson)
    (names : ∀ a ∈ declared, a.name ∈ attributeNames)
    (values : ∀ a ∈ declared, ∀ v, Entries.get? es (.text a.name) = some v → IsAttributed v) :
    IsAttributed (.map es) := by
  obtain ⟨known, -, -⟩ := attributes_eq_nil_iff.1 h
  refine .map (fun e he => ?_) fun e he => ?_
  · obtain ⟨a, ha, hname⟩ := known e he
    exact ⟨a.name, hname, names a ha⟩
  · obtain ⟨a, ha, hname⟩ := known e he
    refine values a ha e.2 ((Entries.get?_eq_some_iff hes.names_nodup).2 ?_)
    rw [← hname]
    exact he

theorem names_record {name : String} (names : ∀ a ∈ declared, a.name ∈ attributeNames)
    (values : ∀ a ∈ declared, Names a.check) : Names (record name declared) := by
  intro v hv h
  cases v with
  | map es =>
      refine attributed_of_attributes h hv names fun a ha w hw => ?_
      exact values a ha (hv.get? (n := a.name) hw) ((attributes_eq_nil_iff.1 h).2.2 a ha w hw)
  | _ => exact absurd h here_ne_nil

theorem names_text : Names text := by
  intro v _ h
  obtain ⟨s, rfl⟩ := text_eq_nil_iff.1 h
  exact .scalar rfl

theorem names_filledText : Names filledText := by
  intro v _ h
  obtain ⟨s, -, rfl⟩ := filledText_eq_nil_iff.1 h
  exact .scalar rfl

theorem names_requires {condition : Value → Bool} {message : String}
    (h : ∀ v, condition v = true → v.isScalar = true) : Names (requires condition message) :=
  fun _ hcheck => .scalar (h _ (requires_eq_nil_iff.1 hcheck))

theorem names_boolean : Names boolean :=
  names_requires fun v hv => by cases v <;> first | rfl | cases hv

theorem names_integer : Names integer :=
  names_requires fun v hv => by cases v <;> first | rfl | cases hv

theorem names_measure : Names measure :=
  names_requires fun v hv => by cases v <;> first | rfl | cases hv

theorem Names.optional (h : Names check) : Names (optional check) := by
  intro v hv hcheck
  rcases optional_eq_nil_iff.1 hcheck with rfl | hcheck
  · exact .scalar rfl
  · exact h hv hcheck

theorem names_oneOf {checks : List (String × Check)} (hchecks : checks ≠ [])
    (h : ∀ c ∈ checks, Names c.2) : Names (oneOf checks) := by
  intro v hv hcheck
  obtain ⟨c, hc, hcheck⟩ := (oneOf_eq_nil_iff hchecks).1 hcheck
  exact h c hc hv hcheck

theorem names_eachItem (h : Names check) {xs : List Value} (hxs : ∀ x ∈ xs, x.IsJson)
    (hcheck : eachItem check xs = []) : IsAttributed (.list xs) :=
  .list fun x hx => h (hxs x hx) (eachItem_eq_nil_iff.1 hcheck x hx)

theorem names_scalarChecks : ∀ c ∈ scalarChecks, Names c.2 := by
  simp only [scalarChecks, List.forall_mem_cons]
  exact ⟨names_boolean, names_integer, names_measure, names_text, List.forall_mem_nil _⟩

theorem names_scalarList : Names scalarList := by
  intro v hv hcheck
  cases v with
  | list xs =>
      exact names_eachItem (names_oneOf (by simp [scalarChecks]) names_scalarChecks)
        (Value.IsIn.list_iff.1 hv) hcheck
  | _ => exact absurd hcheck here_ne_nil

theorem names_defaultValue : Names defaultValue := by
  refine names_oneOf (by simp) fun c hc => ?_
  rcases List.mem_append.1 hc with hc | hc
  · exact names_scalarChecks c hc
  · obtain rfl := List.mem_singleton.1 hc
    exact names_scalarList

theorem names_rules : Names rules := by
  refine names_record (by decide) ?_
  simp only [List.forall_mem_cons]
  exact ⟨names_measure.optional, names_measure.optional, names_text.optional, List.forall_mem_nil _⟩

theorem names_option : Names option := by
  refine names_record (by decide) ?_
  simp only [List.forall_mem_cons]
  exact ⟨names_text, names_text, List.forall_mem_nil _⟩

theorem names_options : Names options := by
  intro v hv hcheck
  unfold options at hcheck
  split at hcheck
  · next xs hxs =>
      obtain rfl := hv.eq_list hxs
      exact names_eachItem names_option (Value.IsIn.list_iff.1 hv) hcheck
  · exact absurd hcheck here_ne_nil

end Shape

namespace Value

open Shape (IsAttributed Names)

/-- Apart from the type and from what a field owns, attributes are checked one by one. -/
theorem names_declared {type : FieldType} {a : Shape.Attribute} (ha : a ∈ type.declared) :
    a.name = "type" ∨ a.name = "children" ∧ type = .section ∨ a.name = "of" ∧ type = .array ∨
      Names a.check := by
  have hshared : ∀ a ∈ Shape.shared, a.name = "type" ∨ Names a.check := by
    simp only [Shape.shared, List.forall_mem_cons]
    exact ⟨.inr Shape.names_filledText, .inr Shape.names_filledText, .inr Shape.names_text,
      .inr Shape.names_text.optional, .inr Shape.names_text.optional,
      .inr Shape.names_boolean.optional, .inr Shape.names_defaultValue.optional,
      .inr Shape.names_rules.optional, .inr Shape.names_text.optional,
      .inr Shape.names_text.optional, .inl trivial, List.forall_mem_nil _⟩
  rcases List.mem_append.1 ha with ha | ha
  · exact (hshared a ha).imp_right fun h => .inr (.inr h)
  · cases type with
    | select | multiselect | radio =>
        obtain rfl := List.mem_singleton.1 ha
        exact .inr (.inr (.inr Shape.names_options))
    | «section» =>
        obtain rfl := List.mem_singleton.1 ha
        exact .inr (.inl ⟨rfl, rfl⟩)
    | array =>
        obtain rfl := List.mem_singleton.1 ha
        exact .inr (.inr (.inl ⟨rfl, rfl⟩))
    | _ => exact absurd ha List.not_mem_nil

/-- All keys in a fitting field are names of attributes. -/
theorem Fits.attributed {v : Value} (h : v.Fits) (hv : v.IsJson) : IsAttributed v := by
  induction h with
  | @intro es type kind own children template ihChildren ihTemplate =>
      have hnames : ∀ a ∈ type.declared, a.name ∈ Shape.attributeNames := by
        cases type <;> decide
      refine Shape.attributed_of_attributes own hv hnames fun a ha w hw => ?_
      have hcheck := (Shape.attributes_eq_nil_iff.1 own).2.2 a ha w hw
      have hjson : w.IsJson := hv.get? (n := a.name) hw
      rcases names_declared ha with hname | ⟨hname, rfl⟩ | ⟨hname, rfl⟩ | hnames
      · rw [hname, kind] at hw
        rw [← Option.some.inj hw]
        exact .scalar rfl
      · obtain ⟨list, xs, hlist, hxs, hvalues⟩ :=
          Fits.exists_children (.intro kind own children template) kind
        rw [hname, hlist] at hw
        obtain rfl := Option.some.inj hw
        obtain rfl := hjson.eq_list hxs
        exact .list fun x hx =>
          ihChildren x (hvalues ▸ hx) (IsIn.list_iff.1 hjson x hx)
      · have ht : w ∈ (Value.map es).templateValue? := by
          rw [templateValue?, if_pos ((isArray_map_iff kind).2 rfl), get?_map, ← hname]
          exact hw
        exact ihTemplate w ht hjson
      · exact hnames hjson hcheck

end Value

namespace Schema

/-- All keys in a schema of the right shape are names of attributes. -/
theorem HasShape.attributed {schema : Value} (h : HasShape schema) (hschema : schema.IsJson) :
    Shape.IsAttributed schema := by
  cases schema with
  | map es =>
      refine .map (fun e he => ?_) fun e he => ?_
      · rcases h.known e he with hkey | hkey
        · exact ⟨_, hkey, by decide⟩
        · exact ⟨_, hkey, by decide⟩
      · have hget : ∀ {n : String}, e.1 = .text n → (Value.map es).getOrNull n = e.2 := by
          intro n hn
          have hmem : (.text n, e.2) ∈ es := by
            rw [← hn]
            exact he
          rw [Value.getOrNull, Value.get?_map,
            (Entries.get?_eq_some_iff hschema.names_nodup).2 hmem, Option.getD_some]
        rcases h.known e he with hkey | hkey
        · rw [← hget hkey, h.version]
          exact .scalar rfl
        · have hfields := h.fields_eq
          rw [hget hkey] at hfields
          have hjson : e.2.IsJson := hschema.of_mem he
          rw [hjson.eq_list hfields]
          exact .list fun x hx => (h.fits x hx).attributed (isIn_rootFields hschema x hx)
  | _ => exact absurd h.isMap (by simp [Value.isMap])

end Schema

end FormDesigner
