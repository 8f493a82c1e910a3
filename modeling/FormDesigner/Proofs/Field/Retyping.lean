import FormDesigner.Proofs.Field.Copying
import FormDesigner.Proofs.Field.Reshaping

/-!
# Fields of another type that fit

A field that fits still fits when it gets another type: what the new type requires is there, and
nothing is left that only the old type has. The one thing that can go wrong is the search for the key
of a new template. A field whose type owns nothing comes back as it was when it gets its old type
again.
-/

namespace FormDesigner

open Work

namespace Value

variable {v w : Value} {n m : String}

theorem drop_eq_self (h : v.get? n = none) : v.drop n = v := by
  cases v with
  | map es => exact congrArg Value.map (Entries.erase_eq_self h)
  | _ => rfl

theorem drop_drop_self : (v.drop n).drop n = v.drop n := drop_eq_self get?_drop_self

theorem drop_drop_comm : (v.drop n).drop m = (v.drop m).drop n := by
  cases v with
  | map es => exact congrArg Value.map (List.filter_comm _ _ es)
  | _ => rfl

/-- What fields of all types may have, without what only some types have. -/
def common (v : Value) : Value := ((v.drop "options").drop "children").drop "of"

theorem common_drop (hn : n ∈ ["options", "children", "of"]) : (v.drop n).common = v.common := by
  simp only [List.mem_cons, List.not_mem_nil, or_false] at hn
  unfold common
  rcases hn with rfl | rfl | rfl
  · rw [drop_drop_self]
  · rw [drop_drop_comm (m := "options"), drop_drop_self]
  · rw [drop_drop_comm (m := "options"), drop_drop_comm (m := "children"), drop_drop_self]

theorem common_put (hn : n ∈ ["options", "children", "of"]) : (v.put n w).common = v.common := by
  rw [← common_drop hn, drop_put_self, common_drop hn]

theorem common_put_type : (v.put "type" w).common = v.common.put "type" w := by
  unfold common
  rw [drop_put_of_ne (by decide), drop_put_of_ne (by decide), drop_put_of_ne (by decide)]

theorem common_eq_self (h : ∀ n ∈ ["options", "children", "of"], v.get? n = none) :
    v.common = v := by
  unfold common
  rw [drop_eq_self (h _ (by decide)), drop_eq_self (h _ (by decide)), drop_eq_self (h _ (by decide))]

end Value

namespace FieldType

/-- Types whose fields have no attributes of their own: neither options nor other fields. -/
def isPlain : FieldType → Bool
  | .text | .number | .date | .checkbox => true
  | _ => false

end FieldType

namespace Factory

variable {s : Supply} {v w : Value} {t u : FieldType} {taken : List Value}

/-! ### There and back -/

theorem common_withList {needed : Prop} [Decidable needed] {n : String} {new : Value}
    (hn : n ∈ ["options", "children", "of"]) : (withList needed n new v).common = v.common := by
  unfold withList
  split
  · split
    · rfl
    · exact Value.common_put hn
  · exact Value.common_drop hn

theorem common_withLists : (withLists t v).common = (v.put "type" (.text t.name)).common := by
  rw [withLists, common_withList (by decide), common_withList (by decide)]

/-- What a field of a type without special attributes becomes does not depend on the keys that are
taken, nor on the supply. -/
theorem reshape_of_isPlain (hu : u.isPlain = true) (v keys : Value) :
    reshape u v keys = pure (v.common.put "type" (.text u.name)) := by
  have hcommon : (withLists u v).drop "of" = (v.put "type" (.text u.name)).common := by
    cases u <;> first | rfl | cases hu
  have hother : u ≠ .array := by
    rintro rfl
    cases hu
  rw [reshape_eq, if_neg hother, hcommon, Value.common_put_type]

theorem retype_eq_reshape (hv : v.isMap = true) (t : FieldType) (keys : Value) :
    retype v (.text t.name) keys = reshape t v keys := by
  have htype : FieldType.ofValue? (.text t.name) = some t := FieldType.ofName?_eq_some_iff.2 rfl
  unfold retype
  rw [htype, hv]
  rfl

/-! ### New templates -/

/-- A supply after a text field has been made of it whose key nothing stands in the way of. -/
def afterText (s : Supply) : Supply :=
  { s with ids := s.ids + 1, letters := s.letters + suffixLength }

/-- The key of a text field that is made when no key is taken. -/
def textKey (s : Supply) : String := FieldType.text.name ++ "_" ++ (s.newLetters suffixLength).1

theorem createText_outcome (label : String) :
    (createAs .text (.text label) []).outcome s =
      (.ok (.ofFields (basicField (s.idAt s.ids) (textKey s) FieldType.text.name (.text label))),
        afterText s) := rfl

/-- The search for a key of a new template. -/
def templateKey (taken : List Value) : Minting String := newKey (.text "item") taken

/-- A field that becomes an array without having a template gets a text field as its template, if
a key is found for that. -/
theorem reshape_newTemplate (h : (v.getOrNull "of").isMap = false)
    (htaken : ∀ k ∈ taken, ∃ n, k = .text n) :
    (reshape .array v (.list taken)).outcome s =
      match (templateKey taken).outcome (afterText s) with
      | (.ok key, q) => (.ok ((withLists .array v).put "of"
          (.ofFields (basicField (s.idAt s.ids) key FieldType.text.name (.text "Item")))), q)
      | (.error e, q) => (.error e, q) := by
  have hof : (withLists .array v).getOrNull "of" = v.getOrNull "of" := by
    rw [Value.getOrNull, get?_withLists_of_ne .array (by decide), Value.getOrNull]
  rw [reshape_eq, if_pos rfl, hof, h, if_neg (by decide), outcome_bind, createText_outcome]
  dsimp only
  rw [outcome_bind, outcome_ofExcept, takenKeys_of_texts htaken]
  dsimp only
  rw [outcome_bind]
  unfold templateKey
  rcases (newKey (.text "item") taken).outcome (afterText s) with ⟨_ | key, q⟩
  · rfl
  · dsimp only
    rw [put_key_basicField]
    rfl

theorem put_id_basicField (id id' key type : String) (label : Value) :
    (Value.ofFields (basicField id key type label)).put "id" (.text id') =
      .ofFields (basicField id' key type label) := by
  simp [Value.ofFields, basicField, Value.put, Entries.insert, Entries.contains]

/-- The text field that becomes a template. -/
theorem fits_newTemplate {id key : String} (hid : id ≠ "") (hkey : key ≠ "") :
    (Value.ofFields (basicField id key FieldType.text.name (.text "Item"))).Fits := by
  have hsome : (Value.ofFields (basicField "id" "key" FieldType.text.name (.text "Item"))).Fits :=
    Value.fits_iff.2 (by decide +kernel)
  have hnamed := (hsome.put_name (.inl rfl) hid).put_name (.inr rfl) hkey
  rwa [put_id_basicField, put_key_basicField] at hnamed

/-! ### What fits -/

/-- The names of the attributes that only some types have. -/
theorem special_name {a : Shape.Attribute} (ha : a ∈ Shape.special t []) :
    a.name ∈ ["options", "children", "of"] := by
  cases t <;> simp_all [Shape.special]

theorem shared_name {a : Shape.Attribute} (ha : a ∈ Shape.shared) :
    a.name ∉ ["options", "children", "of"] := by
  simp only [Shape.shared, List.mem_cons, List.not_mem_nil, or_false] at ha
  rcases ha with rfl | rfl | rfl | rfl | rfl | rfl | rfl | rfl | rfl | rfl | rfl <;> decide

theorem options_sampleOptions : Shape.options sampleOptions = [] := by decide +kernel

theorem ownedList_eq_some {needed : Prop} [Decidable needed] {new x : Value} {old : Option Value}
    (h : ownedList needed new old = some x) :
    needed ∧ (old = some x ∧ x.isList = true ∨ x = new) := by
  unfold ownedList at h
  split at h
  · refine ⟨‹_›, ?_⟩
    split at h
    · next hlist =>
        rw [h] at hlist
        exact .inl ⟨h, hlist⟩
    · exact .inr (Option.some.inj h).symm
  · cases h

theorem exists_ownedList {needed : Prop} [Decidable needed] (h : needed) (new : Value)
    (old : Option Value) : ∃ x, ownedList needed new old = some x := by
  unfold ownedList
  rw [if_pos h]
  split
  · next hlist =>
      cases old with
      | none => cases hlist
      | some x => exact ⟨x, rfl⟩
  · exact ⟨new, rfl⟩

namespace Reshaped

theorem get?_of_shared (h : Reshaped t taken v w) {a : Shape.Attribute} (ha : a ∈ Shape.shared)
    (htype : a.name ≠ "type") : w.get? a.name = v.get? a.name := by
  refine h.other _ fun hmem => ?_
  rcases List.mem_cons.1 hmem with hmem | hmem
  · exact htype hmem
  · exact shared_name ha hmem

/-- Nothing is there that the type does not declare. -/
theorem declared (h : Reshaped t taken v w) (hv : v.Fits) {n : String} {x : Value}
    (hx : w.get? n = some x) : ∃ a ∈ t.declared, a.name = n := by
  by_cases hn : n ∈ ["type", "options", "children", "of"]
  · simp only [List.mem_cons, List.not_mem_nil, or_false] at hn
    rcases hn with rfl | rfl | rfl | rfl
    · exact ⟨⟨"type", true, fun _ => []⟩, List.mem_append_left _ (by simp [Shape.shared]), rfl⟩
    · rw [h.options] at hx
      have hchoice := (ownedList_eq_some hx).1
      cases t <;> first | exact ⟨_, List.mem_append_right _ (.head _), rfl⟩ | cases hchoice
    · rw [h.children] at hx
      obtain rfl := (ownedList_eq_some hx).1
      exact ⟨_, List.mem_append_right _ (.head _), rfl⟩
    · by_cases harray : t = .array
      · subst harray
        exact ⟨_, List.mem_append_right _ (.head _), rfl⟩
      · rw [h.noTemplate harray] at hx
        cases hx
  · rw [h.other n hn] at hx
    cases hv with
    | @intro es u kind own =>
        obtain ⟨a, ha, hname⟩ :=
          (Shape.attributes_eq_nil_iff.1 own).1 _ (Entries.mem_of_get?_eq_some hx)
        obtain rfl : n = a.name := Value.text.inj hname
        rcases List.mem_append.1 ha with ha | ha
        · exact ⟨a, List.mem_append_left _ ha, rfl⟩
        · exact absurd (.tail _ (special_name ha)) hn

/-- Attributes of all types are as they were, and so are as they have to be. -/
theorem shared_valid (h : Reshaped t taken v w) (hv : v.Fits) {a : Shape.Attribute}
    (ha : a ∈ Shape.shared) :
    (a.required = true → ∃ x, w.get? a.name = some x) ∧
      ∀ x, w.get? a.name = some x → a.check x = [] := by
  by_cases htype : a.name = "type"
  · have hdeclared : (⟨"type", true, fun _ => []⟩ : Shape.Attribute) ∈ t.declared :=
      List.mem_append_left _ (by simp [Shape.shared])
    obtain rfl := FieldType.declared_unique (List.mem_append_left _ ha) hdeclared htype
    exact ⟨fun _ => ⟨_, h.kind⟩, fun _ _ => rfl⟩
  · rw [h.get?_of_shared ha htype]
    cases hv with
    | @intro es u kind own =>
        obtain ⟨-, present, valid⟩ := Shape.attributes_eq_nil_iff.1 own
        exact ⟨present a (List.mem_append_left _ ha), valid a (List.mem_append_left _ ha)⟩

theorem options_valid (h : Reshaped t taken v w) (hv : v.Fits) {x : Value}
    (hx : w.get? "options" = some x) : Shape.options x = [] := by
  rw [h.options] at hx
  rcases (ownedList_eq_some hx).2 with ⟨hold, -⟩ | rfl
  · cases hv with
    | @intro es u kind own =>
        obtain ⟨known, -, valid⟩ := Shape.attributes_eq_nil_iff.1 own
        obtain ⟨a, ha, hname⟩ := known _ (Entries.mem_of_get?_eq_some hold)
        have hname : a.name = "options" := (Value.text.inj hname).symm
        rcases List.mem_append.1 ha with hshared | hspecial
        · exact absurd (hname ▸ List.mem_cons_self) (shared_name hshared)
        · have hcheck := valid a ha x (hname ▸ hold)
          cases u <;> simp_all [Shape.special]
  · exact options_sampleOptions

theorem special_valid (h : Reshaped t taken v w) (hv : v.Fits) {a : Shape.Attribute}
    (ha : a ∈ Shape.special t []) :
    (a.required = true → ∃ x, w.get? a.name = some x) ∧
      ∀ x, w.get? a.name = some x → a.check x = [] := by
  have hchoice : t.isChoice = true → ∃ x, w.get? "options" = some x := fun ht => by
    rw [h.options]
    exact exists_ownedList ht _ _
  cases t with
  | select | multiselect | radio =>
      obtain rfl := List.mem_singleton.1 ha
      exact ⟨fun _ => hchoice rfl, fun x hx => h.options_valid hv hx⟩
  | «section» =>
      obtain rfl := List.mem_singleton.1 ha
      refine ⟨fun _ => ?_, fun x hx => ?_⟩
      · rw [h.children]
        exact exists_ownedList rfl _ _
      · rw [h.children] at hx
        rcases (ownedList_eq_some hx).2 with ⟨-, hlist⟩ | rfl
        · cases x <;> first | rfl | cases hlist
        · rfl
  | array =>
      obtain rfl := List.mem_singleton.1 ha
      refine ⟨fun _ => ?_, fun _ _ => rfl⟩
      by_cases hmap : (v.getOrNull "of").isMap = true
      · rw [h.oldTemplate rfl hmap]
        cases hof : v.get? "of" with
        | none =>
            rw [Value.getOrNull, hof] at hmap
            cases hmap
        | some x => exact ⟨x, rfl⟩
      · obtain ⟨id, key, -, hof⟩ := h.newTemplate rfl (Bool.eq_false_iff.2 hmap)
        exact ⟨_, hof⟩
  | _ => exact absurd ha List.not_mem_nil

/-- What children it has are those of the field, and they are in a list. -/
theorem childValues (h : Reshaped t taken v w) (hv : v.Fits) :
    ∀ c ∈ w.childValues, c ∈ v.childValues := by
  intro c hc
  obtain ⟨-, list, xs, hlist, hxs, hmem⟩ := Value.mem_childValues hc
  rw [h.children] at hlist
  rcases (ownedList_eq_some hlist).2 with ⟨hold, -⟩ | rfl
  · rwa [Value.childValues_eq (hv.isSection_of_children hold) hold hxs]
  · obtain rfl := Option.some.inj hxs
    cases hmem

theorem templateValue (h : Reshaped t taken v w) (hv : v.Fits) {x : Value}
    (hx : x ∈ w.templateValue?) :
    x ∈ v.templateValue? ∨ (v.getOrNull "of").isMap = false ∧ t = .array ∧ w.get? "of" = some x := by
  have hkind := h.kind
  unfold Value.templateValue? at hx
  split at hx
  · next harray =>
      obtain rfl : t = .array := by
        have htype := (Value.isArray_iff.1 harray).2
        rw [Value.getOrNull, hkind, Option.getD_some] at htype
        exact FieldType.name_injective (u := .array) (Value.text.inj htype)
      by_cases hmap : (v.getOrNull "of").isMap = true
      · rw [h.oldTemplate rfl hmap] at hx
        refine .inl ?_
        rw [Value.templateValue?, if_pos (hv.isArray_of_template hx)]
        exact hx
      · exact .inr ⟨Bool.eq_false_iff.2 hmap, rfl, hx⟩
  · cases hx

/-- A field in the shape of a type fits if a template that was made for it does. -/
theorem fits (h : Reshaped t taken v w) (hv : v.Fits) (hw : w.IsIn .textKeyed)
    (htemplate : (v.getOrNull "of").isMap = false → t = .array →
      ∀ x, w.get? "of" = some x → x.Fits) : w.Fits := by
  obtain ⟨es, rfl⟩ := Value.exists_eq_map (Value.isMap_of_get? (Option.isSome_of_eq_some h.kind))
  obtain ⟨names, keys, -⟩ := Value.IsIn.map_iff.1 hw
  refine .intro h.kind (Shape.attributes_eq_nil_iff.2 ⟨fun e he => ?_, fun a ha => ?_, fun a ha => ?_⟩)
    (fun c hc => hv.children c (h.childValues hv c hc)) fun x hx => ?_
  · obtain ⟨n, hn⟩ := keys e he
    have hget : Entries.get? es (.text n) = some e.2 := by
      rw [Entries.get?_eq_some_iff names, ← hn]
      exact he
    obtain ⟨a, ha, rfl⟩ := h.declared hv (n := n) hget
    exact ⟨a, ha, hn⟩
  · rcases List.mem_append.1 ha with hshared | hspecial
    · exact (h.shared_valid hv hshared).1
    · exact (h.special_valid hv hspecial).1
  · rcases List.mem_append.1 ha with hshared | hspecial
    · exact (h.shared_valid hv hshared).2
    · exact (h.special_valid hv hspecial).2
  · rcases h.templateValue hv hx with hold | ⟨hmap, harray, hnew⟩
    · exact hv.template x hold
    · exact htemplate hmap harray x hnew

end Reshaped

/-! ### What becomes of a field that fits -/

/-- The key search for the template of a field that becomes an array finds a key. -/
def FindsKey (taken : List Value) (s : Supply) : Prop :=
  ∃ key q, (templateKey taken).outcome (afterText s) = (.ok key, q)

theorem reshape_succeeds (hs : s.GivesIds) (hv : v.isMap = true)
    (htaken : ∀ k ∈ taken, ∃ n, k = .text n)
    (hfound : t = .array → (v.getOrNull "of").isMap = false → FindsKey taken s) :
    ∃ g q, (reshape t v (.list taken)).outcome s = (.ok g, q) ∧
      g.common = (v.put "type" (.text t.name)).common ∧
        ((v.getOrNull "of").isMap = false → t = .array → ∀ x, g.get? "of" = some x → x.Fits) := by
  by_cases harray : t = .array
  · subst harray
    by_cases hmap : (v.getOrNull "of").isMap = true
    · have hof : (withLists .array v).getOrNull "of" = v.getOrNull "of" := by
        rw [Value.getOrNull, get?_withLists_of_ne .array (by decide), Value.getOrNull]
      refine ⟨withLists .array v, s, ?_, common_withLists, fun hnot => ?_⟩
      · rw [reshape_eq, if_pos rfl, hof, if_pos hmap, outcome_pure]
      · rw [hmap] at hnot
        cases hnot
    · have hnot := Bool.eq_false_iff.2 hmap
      obtain ⟨key, q, hkey⟩ := hfound rfl hnot
      have hnamed : key ≠ "" :=
        ((newKey_keeps (s := s) _ _ (afterText s) ⟨rfl, rfl⟩).outcome hkey).2 key rfl
      refine ⟨_, q, by rw [reshape_newTemplate hnot htaken, hkey], ?_, fun _ _ x hx => ?_⟩
      · rw [Value.common_put (by decide), common_withLists]
      · rw [Value.get?_put_self (by rwa [isMap_withLists])] at hx
        exact Option.some.inj hx ▸ fits_newTemplate (hs _) hnamed
  · refine ⟨(withLists t v).drop "of", s, ?_, ?_, fun _ h => absurd h harray⟩
    · rw [reshape_eq, if_neg harray, outcome_pure]
    · rw [Value.common_drop (by decide), common_withLists]

theorem owned_newTemplate (id key : String) (label : Value) :
    (Value.ofFields (basicField id key FieldType.text.name label)).owned =
      [.ofFields (basicField id key FieldType.text.name label)] := by
  have hkind : (Value.ofFields (basicField id key FieldType.text.name label)).getOrNull "type" =
      .text "text" := by
    have hmem : ("type", Value.text FieldType.text.name) ∈
        basicField id key FieldType.text.name label := by simp [basicField]
    rw [Value.getOrNull, Entries.get?_ofFields (by simp [basicField]) hmem]
    rfl
  have hsection : ¬ (Value.ofFields (basicField id key FieldType.text.name label)).isSection = true :=
    fun h => absurd (hkind.symm.trans (Value.isSection_iff.1 h).2) (by simp)
  have harray : ¬ (Value.ofFields (basicField id key FieldType.text.name label)).isArray = true :=
    fun h => absurd (hkind.symm.trans (Value.isArray_iff.1 h).2) (by simp)
  rw [Value.owned_eq, Value.childValues, if_neg hsection, Value.fieldTemplate, Value.templateValue?,
    if_neg harray]
  rfl

/-- A field that is given another type, and has nothing that the type lets it keep, owns nothing but
the new template of an array. -/
theorem owned_reshape {g : Value} {q : Supply} (hv : v.isMap = true)
    (hchildren : t = .section → v.get? "children" = none) (hof : t = .array → v.get? "of" = none)
    (htaken : ∀ k ∈ taken, ∃ n, k = .text n)
    (made : (reshape t v (.list taken)).outcome s = (.ok g, q)) :
    t ≠ .array ∧ g.owned = [g] ∨
      t = .array ∧ ∃ key, (templateKey taken).outcome (afterText s) = (.ok key, q) ∧
        g.owned = [g, .ofFields (basicField (s.idAt s.ids) key FieldType.text.name (.text "Item"))] := by
  have hshape : Reshaped t taken v g :=
    ((reshape_reshaped hv t taken s (.refl s)).outcome made).2 g rfl
  have hnone : g.childValues = [] := by
    refine List.eq_nil_iff_forall_not_mem.2 fun c hc => ?_
    obtain ⟨-, list, xs, hlist, hxs, hmem⟩ := Value.mem_childValues hc
    rw [hshape.children] at hlist
    obtain ⟨hsection, ⟨hold, -⟩ | rfl⟩ := ownedList_eq_some hlist
    · rw [hchildren hsection] at hold
      cases hold
    · obtain rfl := Option.some.inj hxs
      cases hmem
  by_cases harray : t = .array
  · subst harray
    have hmap : (v.getOrNull "of").isMap = false := by
      rw [Value.getOrNull, hof rfl]
      rfl
    rw [reshape_newTemplate hmap htaken] at made
    rcases hkey : (templateKey taken).outcome (afterText s) with ⟨e | key, p⟩
    · rw [hkey] at made
      cases made
    · rw [hkey] at made
      obtain ⟨hg, rfl⟩ := Prod.mk.inj made
      have hg := Except.ok.inj hg
      have hget : g.get? "of" =
          some (.ofFields (basicField (s.idAt s.ids) key FieldType.text.name (.text "Item"))) := by
        rw [← hg]
        exact Value.get?_put_self (by rwa [isMap_withLists])
      have hisArray : g.isArray = true := by
        refine Value.isArray_iff.2 ⟨Value.isMap_of_get? (Option.isSome_of_eq_some hget), ?_⟩
        rw [Value.getOrNull, hshape.kind]
        rfl
      refine .inr ⟨rfl, key, rfl, ?_⟩
      rw [Value.owned_eq, hnone, Value.fieldTemplate, Value.templateValue?, if_pos hisArray, hget]
      rw [List.flatMap_nil, List.nil_append, Option.filter_some_pos rfl]
      exact congrArg (g :: ·) ((List.flatMap_singleton _ _).trans (owned_newTemplate _ _ _))
  · refine .inl ⟨harray, ?_⟩
    have htemplate : g.fieldTemplate = [] := by
      rw [Value.fieldTemplate, Value.templateValue?, hshape.noTemplate harray, ite_self]
      rfl
    rw [Value.owned_eq, hnone, htemplate]
    rfl

/-- A fitting field of a plain type has nothing that only some types have. -/
theorem common_eq_self (hv : v.Fits) (hu : u.isPlain = true)
    (hkind : v.getOrNull "type" = .text u.name) : v.common = v := by
  refine Value.common_eq_self fun n hn => ?_
  cases hget : v.get? n with
  | none => rfl
  | some x =>
      cases hv with
      | @intro es t kind own =>
          obtain rfl : t = u := by
            rw [Value.getOrNull, Value.get?_map, kind, Option.getD_some] at hkind
            exact FieldType.name_injective (Value.text.inj hkind)
          obtain ⟨a, ha, hname⟩ :=
            (Shape.attributes_eq_nil_iff.1 own).1 _ (Entries.mem_of_get?_eq_some hget)
          rcases List.mem_append.1 ha with hshared | hspecial
          · exact absurd (Value.text.inj hname ▸ hn) (shared_name hshared)
          · cases t <;> first | exact absurd hspecial List.not_mem_nil | cases hu

/-- A field that passes the check of shapes becomes, of whatever type, a field that passes it, unless
the key search for a new template fails. It has the type and what the type requires, and its other
attributes are as they were; a new template has a key that was not taken. A field whose type owns
nothing and has no options is what it was when it gets its old type again. -/
theorem retype_accepted (hs : s.GivesIds) (hproper : v.IsProper) (hv : fieldProblems v = [])
    (t : FieldType) (keys : List String)
    (hfound : t = .array → (v.getOrNull "of").isMap = false → FindsKey (keys.map .text) s) :
    ∃ g q, (retype v (.text t.name) (.list (keys.map .text))).outcome s = (.ok g, q) ∧
      fieldProblems g = [] ∧ Reshaped t (keys.map .text) v g ∧
        ∀ u : FieldType, u.isPlain = true → v.getOrNull "type" = .text u.name →
          ∀ keys' p, (retype g (.text u.name) keys').outcome p = (.ok v, p) := by
  have hfits := fieldProblems_eq_nil_iff.1 hv
  have htaken : ∀ k ∈ keys.map Value.text, ∃ n, k = .text n :=
    List.forall_mem_map.2 fun n _ => ⟨n, rfl⟩
  obtain ⟨g, q, hreshape, hcommon, htemplate⟩ := reshape_succeeds hs hfits.isMap htaken hfound
  have hretype := (congrArg (Work.outcome · s) (retype_eq_reshape hfits.isMap t _)).trans hreshape
  have hshape : Reshaped t (keys.map .text) v g :=
    ((retype_reshaped hfits.isMap t (keys.map .text) s (.refl s)).outcome hretype).2 g rfl
  have hkeyed : g.IsIn .textKeyed :=
    ((retype_keeps .textKeyed v _ _ s (.refl s)).outcome hretype).2 g rfl (hfits.textKeyed hproper)
  refine ⟨g, q, hretype, fieldProblems_eq_nil_iff.2 (hshape.fits hfits hkeyed htemplate), hshape,
    fun u hplain hkind keys' p => ?_⟩
  have hback : g.common.put "type" (.text u.name) = v := by
    rw [hcommon, Value.common_put_type, Value.put_put, common_eq_self hfits hplain hkind]
    exact Value.put_eq_self hproper (Value.get?_of_getOrNull hkind nofun)
  have hmap : g.isMap = true := Value.isMap_of_get? (Option.isSome_of_eq_some hshape.kind)
  rw [retype_eq_reshape hmap, reshape_of_isPlain hplain, hback, outcome_pure]

/-- A supply whose ids differ and whose letters are the first of the alphabet, later the second. -/
def someSupply : Supply := ⟨fun n => "id" ++ toString n, fun n => if n < 8 then 'a' else 'b', 0, 0⟩

/-- The first key that is drawn for the template of the array is taken, the second is not. -/
theorem checkbox_to_array_and_back :
    let box := Value.ofFields (basicField "i" "agreed" "checkbox" (.text "Agreed"))
    ∃ g q, (retype box (.text "array") (.list [.text "item_aaaa"])).outcome someSupply = (.ok g, q) ∧
      fieldProblems g = [] ∧ ∀ keys p, (retype g (.text "checkbox") keys).outcome p = (.ok box, p) := by
  intro box
  have hids : someSupply.GivesIds := fun n h => by
    have hlist := congrArg String.toList h
    simp [someSupply] at hlist
  have hproper : box.IsProper :=
    .ofFields (by decide) (basicField_isIn _ _ _ (.text "Agreed"))
  have hfound : FindsKey [.text "item_aaaa"] someSupply :=
    ⟨"item_bbbb", ⟨someSupply.idAt, someSupply.letterAt, 1, 12⟩, by with_unfolding_all rfl⟩
  obtain ⟨g, q, hretype, haccepted, -, hback⟩ :=
    retype_accepted hids hproper (by decide +kernel) .array ["item_aaaa"] fun _ _ => hfound
  exact ⟨g, q, hretype, haccepted, hback .checkbox rfl (by with_unfolding_all rfl)⟩

end Factory

end FormDesigner
