import FormDesigner.Field.Factory
import FormDesigner.Proofs.Field.Tree
import FormDesigner.Proofs.Work
import FormDesigner.Store.Patch

/-!
# Copies and patches of fields

Making fields uses up names of a supply and changes nothing else about it. A copy with fresh ids and
keys of a field that fits is a field that fits, since neither an id nor a key is ever empty. What is
patched or reshaped need not fit any more, but it stays in its domain.
-/

namespace FormDesigner

open Work (Keeps keeps_pure keeps_throw keeps_ofExcept keeps_modifyGet)
open Value (IsIn Domain Fits)

namespace Supply

/-- The same supply, of which perhaps more has been used. -/
def Follows (s t : Supply) : Prop := t.idAt = s.idAt ∧ t.letterAt = s.letterAt

theorem Follows.refl (s : Supply) : s.Follows s := ⟨rfl, rfl⟩

/-- None of the ids of a supply is empty. -/
def GivesIds (s : Supply) : Prop := ∀ n, s.idAt n ≠ ""

theorem GivesIds.follows {s t : Supply} (hs : s.GivesIds) (h : s.Follows t) : t.GivesIds := by
  intro n
  rw [h.1]
  exact hs n

end Supply

variable {s : Supply} {D : Domain} {v : Value}

namespace Minting

theorem newId_keeps : Keeps s.Follows newId fun id => s.GivesIds → id ≠ "" := by
  refine keeps_modifyGet fun t ht => ⟨ht, fun hs => ?_⟩
  exact hs.follows ht _

theorem newLetters_keeps (n : Nat) : Keeps s.Follows (newLetters n) fun _ => True :=
  keeps_modifyGet fun _ ht => ⟨ht, trivial⟩

end Minting

namespace Factory

open Minting (newId_keeps newLetters_keeps)

theorem keyAttempts_keeps (start : String) (taken : List Value) (attempt more : Nat) :
    Keeps s.Follows (keyAttempts start taken attempt more) fun key => key ≠ "" := by
  induction more generalizing attempt with
  | zero => exact keeps_throw
  | succ more ih =>
      refine (newLetters_keeps _).bind fun suffix _ => ?_
      dsimp only
      split
      · exact ih (attempt + 1)
      · refine keeps_pure fun h => ?_
        have := congrArg String.toList h
        simp at this

theorem newKey_keeps (start : Value) (taken : List Value) :
    Keeps s.Follows (newKey start taken) fun key => key ≠ "" :=
  (keeps_ofExcept fun _ _ => trivial).bind fun _ _ => keyAttempts_keeps _ _ _ _

theorem basicField_isIn (id key type : String) {label : Value} (hlabel : label.IsIn D) :
    ∀ f ∈ basicField id key type label, f.2.IsIn D := by
  simp only [basicField, List.forall_mem_cons]
  exact ⟨.text _, .text _, .text _, hlabel, .text _, .empty, List.forall_mem_nil _⟩

private theorem option_isIn (value label : String) :
    (Value.ofFields [("value", .text value), ("label", .text label)]).IsIn D := by
  refine IsIn.ofFields (by simp) ?_
  simp only [List.forall_mem_cons]
  exact ⟨.text _, .text _, List.forall_mem_nil _⟩

theorem sampleOptions_isIn : sampleOptions.IsIn D := by
  refine .list ?_
  simp only [List.forall_mem_cons]
  exact ⟨option_isIn _ _, option_isIn _ _, option_isIn _ _, List.forall_mem_nil _⟩

theorem createText_keeps (label : String) (taken : List Value) :
    Keeps s.Follows (createAs .text (.text label) taken) fun v => v.IsIn D := by
  refine (newKey_keeps _ _).bind fun key _ => newId_keeps.bind fun id _ => keeps_pure ?_
  exact IsIn.ofFields (by simp [basicField]) (basicField_isIn _ _ _ (.text label))

/-! ### Fresh copies -/

/-- The items of what stands under a name, each copied in turn. -/
theorem refreshChildren_eq (taken : List Value) (es : Entries) :
    refreshChildren taken es =
      match Entries.get? es (.text "children") with
      | some v => refreshList taken v
      | none => pure (none, taken) := by
  induction es with
  | nil => rw [refreshChildren, Entries.get?_nil]
  | cons e es ih =>
      obtain ⟨k, v⟩ := e
      rw [refreshChildren, Field.isKey]
      by_cases hk : k = .text "children"
      · rw [hk, if_pos (Value.same_text_iff.2 rfl), Entries.get?_cons_self]
      · rw [if_neg (mt Value.same_text_iff.1 hk), ih, Entries.get?_cons_of_ne hk]

theorem refreshTemplate_eq (taken : List Value) (es : Entries) :
    refreshTemplate taken es =
      match Entries.get? es (.text "of") with
      | some v =>
        if v.isMap then do
          let (t, taken) ← refresh taken v
          return (some t, taken)
        else pure (none, taken)
      | none => pure (none, taken) := by
  induction es with
  | nil => rw [refreshTemplate, Entries.get?_nil]
  | cons e es ih =>
      obtain ⟨k, v⟩ := e
      rw [refreshTemplate, Field.isKey]
      by_cases hk : k = .text "of"
      · rw [hk, if_pos (Value.same_text_iff.2 rfl), Entries.get?_cons_self]
      · rw [if_neg (mt Value.same_text_iff.1 hk), ih, Entries.get?_cons_of_ne hk]

theorem refreshAll_keeps {P : Value → Prop} {cs : List Value}
    (hcs : ∀ c ∈ cs, ∀ taken, Keeps s.Follows (refresh taken c) fun r => P r.1)
    (taken : List Value) :
    Keeps s.Follows (refreshAll taken cs) fun r => ∀ c ∈ r.1, P c := by
  induction cs generalizing taken with
  | nil =>
      rw [refreshAll]
      exact keeps_pure fun c hc => absurd hc List.not_mem_nil
  | cons c cs ih =>
      obtain ⟨hc, hcs⟩ := List.forall_mem_cons.1 hcs
      rw [refreshAll]
      refine (hc taken).bind fun r hr => (ih hcs r.2).bind fun rs hrs => keeps_pure ?_
      exact List.forall_mem_cons.2 ⟨hr, hrs⟩

/-- A property of fields that survives fresh ids and keys on every node. -/
structure IsRefreshable (s : Supply) (P : Value → Prop) : Prop where
  children : ∀ {v cs}, P v → v.get? "children" = some (.list cs) → ∀ c ∈ cs, P c
  template : ∀ {v t}, P v → v.get? "of" = some t → P t
  put_id : ∀ {v id}, P v → (s.GivesIds → id ≠ "") → P (v.put "id" (.text id))
  put_key : ∀ {v key}, P v → key ≠ "" → P (v.put "key" (.text key))
  put_children : ∀ {v cs cs'}, P v → v.get? "children" = some (.list cs) → (∀ c ∈ cs', P c) →
    P (v.put "children" (.list cs'))
  put_template : ∀ {v t t'}, P v → v.get? "of" = some t → P t' → P (v.put "of" t')

theorem sizeOf_child_lt {c list : Value} {cs : List Value} (h : v.get? "children" = some list)
    (hlist : list = .list cs) (hc : c ∈ cs) : sizeOf c < sizeOf v := by
  have hsize := Value.sizeOf_get?_lt h
  have hmem := List.sizeOf_lt_of_mem hc
  rw [hlist, Value.list.sizeOf_spec] at hsize
  omega

section

variable {P : Value → Prop} {es : Entries}

/-- The children of a fresh copy are copies of the children, if the field has a list of them. -/
private theorem refreshChildren_keeps
    (hcopies : ∀ cs, Entries.get? es (.text "children") = some (.list cs) → ∀ c ∈ cs, ∀ taken,
      Keeps s.Follows (refresh taken c) fun r => P r.1) (taken : List Value) :
    Keeps s.Follows (refreshChildren taken es) fun r => ∀ cs, r.1 = some cs →
      ∃ old, Entries.get? es (.text "children") = some (.list old) ∧ ∀ c ∈ cs, P c := by
  rw [refreshChildren_eq]
  cases hlist : Entries.get? es (.text "children") with
  | none => exact keeps_pure fun cs h => by cases h
  | some list =>
      cases list with
      | list cs =>
          dsimp only
          rw [refreshList]
          refine (refreshAll_keeps (hcopies cs hlist) taken).bind fun r hr =>
            keeps_pure fun cs' h => ?_
          exact ⟨cs, rfl, Option.some.inj h ▸ hr⟩
      | _ =>
          dsimp only
          rw [refreshList]
          · exact keeps_pure fun cs h => by cases h
          · intro cs h
            cases h

/-- A field that is given a copy of its template, if it has one. -/
private theorem putTemplate_keeps (hP : IsRefreshable s P)
    (hcopy : ∀ t, Entries.get? es (.text "of") = some t → ∀ taken,
      Keeps s.Follows (refresh taken t) fun r => P r.1)
    (hv : P v) (hof : v.get? "of" = Entries.get? es (.text "of")) (taken : List Value) :
    Keeps s.Follows (do
      let r ← refreshTemplate taken es
      let v := match r.1 with
        | some t => v.put "of" t
        | none => v
      return (v, r.2)) fun r => P r.1 := by
  have htemplate : Keeps s.Follows (refreshTemplate taken es) fun r =>
      ∀ t, r.1 = some t → ∃ old, Entries.get? es (.text "of") = some old ∧ P t := by
    rw [refreshTemplate_eq]
    cases hold : Entries.get? es (.text "of") with
    | none => exact keeps_pure fun t h => by cases h
    | some old =>
        dsimp only
        split
        · refine (hcopy old hold taken).bind fun r hr => keeps_pure fun t h => ?_
          exact ⟨old, rfl, Option.some.inj h ▸ hr⟩
        · exact keeps_pure fun t h => by cases h
  refine htemplate.bind fun r hr => keeps_pure ?_
  obtain ⟨template, taken'⟩ := r
  cases template with
  | none => exact hv
  | some t =>
      obtain ⟨old, hold, ht⟩ := hr t rfl
      exact hP.put_template hv (hof.trans hold) ht

end

/-- A fresh copy has the properties that fresh ids and keys leave alone. -/
theorem refresh_keeps {P : Value → Prop} (hP : IsRefreshable s P) (hv : P v)
    (taken : List Value) : Keeps s.Follows (refresh taken v) fun r => P r.1 := by
  induction hn : sizeOf v using Nat.strongRecOn generalizing v taken with | ind n ih
  subst hn
  cases v with
  | map es =>
      rw [refresh]
      refine newId_keeps.bind fun id hid => (newKey_keeps _ _).bind fun key hkey => ?_
      dsimp only
      -- The children and the template are those of the field before it was given its new names.
      have hchildren : ∀ cs, Entries.get? es (.text "children") = some (.list cs) → ∀ c ∈ cs,
          ∀ taken, Keeps s.Follows (refresh taken c) fun r => P r.1 := fun cs hlist c hc taken =>
        ih _ (sizeOf_child_lt (v := .map es) hlist rfl hc) (hP.children hv hlist c hc) taken rfl
      have htemplate : ∀ t, Entries.get? es (.text "of") = some t → ∀ taken,
          Keeps s.Follows (refresh taken t) fun r => P r.1 := fun t hof taken =>
        ih _ (Value.sizeOf_get?_lt (v := .map es) (n := "of") hof) (hP.template hv hof) taken rfl
      have hnamed := hP.put_key (hP.put_id hv hid) hkey
      have hget : ∀ n, n ≠ "id" → n ≠ "key" →
          (((Value.map es).put "id" (.text id)).put "key" (.text key)).get? n =
            Entries.get? es (.text n) := fun n hid hkey => by
        rw [Value.get?_put_of_ne hkey, Value.get?_put_of_ne hid, Value.get?_map]
      refine (refreshChildren_keeps hchildren _).bind fun r hr => ?_
      obtain ⟨children, taken'⟩ := r
      cases children with
      | none =>
          exact putTemplate_keeps hP htemplate hnamed (hget _ (by decide) (by decide)) taken'
      | some cs =>
          obtain ⟨old, hold, hcs⟩ := hr cs rfl
          have hlist := (hget "children" (by decide) (by decide)).trans hold
          refine putTemplate_keeps hP htemplate (hP.put_children hnamed hlist hcs) ?_ taken'
          rw [Value.get?_put_of_ne (by decide)]
          exact hget _ (by decide) (by decide)
  | _ =>
      rw [refresh]
      · exact newId_keeps.bind fun _ _ => keeps_throw
      · intro es h
        cases h

theorem isRefreshable_true : IsRefreshable s fun _ => True where
  children _ _ _ _ := trivial
  template _ _ := trivial
  put_id _ _ := trivial
  put_key _ _ := trivial
  put_children _ _ _ := trivial
  put_template _ _ _ := trivial

end Factory

namespace Value.Fits

variable {list : Value}

/-- Only sections have children. -/
theorem isSection_of_children (h : v.Fits) (hlist : v.get? "children" = some list) :
    v.isSection = true := by
  cases h with
  | @intro es type kind own =>
      obtain ⟨known, -, -⟩ := Shape.attributes_eq_nil_iff.1 own
      obtain ⟨a, ha, hname⟩ := known _ (Entries.mem_of_get?_eq_some hlist)
      refine (isSection_map_iff kind).2 ?_
      have hnames : "children" ∈ type.declared.map Shape.Attribute.name :=
        List.mem_map.2 ⟨a, ha, (Value.text.inj hname).symm⟩
      cases type with
      | «section» => rfl
      | _ => exact absurd hnames (by decide)

/-- Only arrays have a template. -/
theorem isArray_of_template (h : v.Fits) (hlist : v.get? "of" = some list) : v.isArray = true := by
  cases h with
  | @intro es type kind own =>
      obtain ⟨known, -, -⟩ := Shape.attributes_eq_nil_iff.1 own
      obtain ⟨a, ha, hname⟩ := known _ (Entries.mem_of_get?_eq_some hlist)
      refine (isArray_map_iff kind).2 ?_
      have hnames : "of" ∈ type.declared.map Shape.Attribute.name :=
        List.mem_map.2 ⟨a, ha, (Value.text.inj hname).symm⟩
      cases type with
      | array => rfl
      | _ => exact absurd hnames (by decide)

end Value.Fits

namespace Factory

/-- Fitting fields of a domain stay such fields with fresh ids and keys. -/
theorem isRefreshable_fits (hs : s.GivesIds) : IsRefreshable s fun v => v.IsIn D ∧ v.Fits where
  children := by
    intro v cs hv hlist c hc
    have hvalues := Value.childValues_eq (hv.2.isSection_of_children hlist) hlist rfl
    exact ⟨hv.1.childValues c (hvalues ▸ hc), hv.2.children c (hvalues ▸ hc)⟩
  template := by
    intro v t hv ht
    have hmem : t ∈ v.templateValue? := by
      rw [Value.templateValue?, if_pos (hv.2.isArray_of_template ht)]
      exact ht
    exact ⟨hv.1.templateValue? t hmem, hv.2.template t hmem⟩
  put_id hv hid := ⟨hv.1.put (.text _), hv.2.put_name (.inl rfl) (hid hs)⟩
  put_key hv hkey := ⟨hv.1.put (.text _), hv.2.put_name (.inr rfl) hkey⟩
  put_children hv hlist hcs :=
    ⟨hv.1.put (.list fun c hc => (hcs c hc).1),
      hv.2.put_children (hv.2.isSection_of_children hlist) fun c hc => (hcs c hc).2⟩
  put_template hv ht ht' :=
    ⟨hv.1.put ht'.1, hv.2.put_template (hv.2.isArray_of_template ht) ht'.2⟩

theorem regenerate_keeps {P : Value → Prop} (hP : IsRefreshable s P) (hv : P v) (keys : Value) :
    Keeps s.Follows (regenerate v keys) P :=
  (keeps_ofExcept fun _ _ => trivial).bind fun taken _ =>
    (refresh_keeps hP hv taken).bind fun _ hr => keeps_pure hr

/-! ### Other types -/

private theorem reshape_keeps (D : Domain) (t : FieldType) (v keys : Value) :
    Keeps s.Follows (reshape t v keys) fun w => v.IsIn D → w.IsIn D := by
  unfold reshape
  extract_lets v₁ v₂ v₃
  have h₁ : v.IsIn D → v₁.IsIn D := fun hv => hv.put (.text _)
  have h₂ : v.IsIn D → v₂.IsIn D := by
    intro hv
    unfold v₂
    split
    · split
      · exact h₁ hv
      · exact (h₁ hv).put sampleOptions_isIn
    · exact (h₁ hv).drop
  have h₃ : v.IsIn D → v₃.IsIn D := by
    intro hv
    unfold v₃
    split
    · split
      · exact h₂ hv
      · exact (h₂ hv).put (.list (List.forall_mem_nil _))
    · exact (h₂ hv).drop
  split
  · split
    · exact keeps_pure h₃
    · refine (createText_keeps (D := D) _ _).bind fun template htemplate => ?_
      refine (keeps_ofExcept fun _ _ => trivial).bind fun taken _ => ?_
      refine (newKey_keeps _ _).bind fun key _ => keeps_pure fun hv => ?_
      exact (h₃ hv).put (htemplate.put (.text _))
  · exact keeps_pure fun hv => (h₃ hv).drop

/-- A field of another type is in the domain of the field. -/
theorem retype_keeps (D : Domain) (v type keys : Value) :
    Keeps s.Follows (retype v type keys) fun w => v.IsIn D → w.IsIn D := by
  unfold retype
  split
  · exact (keeps_ofExcept fun _ _ => trivial).bind fun _ _ => keeps_throw
  · split
    · exact reshape_keeps D _ v keys
    · exact keeps_throw

end Factory

/-! ### Patches -/

namespace Patch

variable {es rules : Entries} {name value : Value}

private theorem mergeRule_isIn (hrules : (Value.map rules).IsIn D) (hname : D.key name)
    (hvalue : value.IsIn D) : (Value.map (mergeRule rules name value)).IsIn D := by
  unfold mergeRule
  split
  · exact hrules.erase
  · exact hrules.insert hname hvalue

private theorem rulesOf_isIn (hv : v.IsIn D) : (Value.map (rulesOf v)).IsIn D := by
  unfold rulesOf Value.getOrNull
  cases hrules : v.get? "validation" with
  | none => exact .empty
  | some rules =>
      cases rules with
      | map es => exact hv.get? hrules
      | _ => exact .empty

private theorem mergeRules_isIn (hv : v.IsIn D) (hes : (Value.map es).IsIn D) :
    (mergeRules v es).IsIn D := by
  obtain ⟨-, keys, values⟩ := IsIn.map_iff.1 hes
  have hrules :
      (Value.map (es.foldl (fun rules e => mergeRule rules e.1 e.2) (rulesOf v))).IsIn D :=
    List.foldlRecOn (motive := fun rules => (Value.map rules).IsIn D) es _ (rulesOf_isIn hv)
      fun rules h e he => mergeRule_isIn h (keys e he) (values e he)
  unfold mergeRules
  dsimp only
  split
  · exact hv.put hrules
  · exact hv

private theorem mergeAttribute_isIn (hv : v.IsIn D) (hname : D.key name) (hvalue : value.IsIn D) :
    (mergeAttribute v name value).IsIn D := by
  unfold mergeAttribute
  split
  · exact hv
  · split
    · exact mergeRules_isIn hv hvalue
    · exact hv.erase
    · exact hv.insert hname hvalue
    · exact hv

/-- A patched field is in the domain of the field and the patch. -/
theorem merge_isIn (hv : v.IsIn D) (hes : (Value.map es).IsIn D) : (merge v es).IsIn D := by
  obtain ⟨-, keys, values⟩ := IsIn.map_iff.1 hes
  exact List.foldlRecOn es (fun field e => mergeAttribute field e.1 e.2) hv
    fun field h e he => mergeAttribute_isIn h (keys e he) (values e he)

end Patch

end FormDesigner
