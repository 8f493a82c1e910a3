import FormDesigner.Proofs.Field.View
import FormDesigner.Proofs.Schema.Shape
import FormDesigner.Store.Patch

/-!
# What a patch leaves

A patch names each attribute once, so the attributes of a patched field are those that the patch
names, and otherwise those of the field. The shape of the field stays as it is declared if the patch
gives each attribute a value that passes its check, and takes away none that must be there.
-/

namespace FormDesigner

namespace Shape

variable {declared : List Attribute} {es : Entries} {n : String} {w : Value}

/-- Taking away an attribute that need not be there leaves nothing to complain about. -/
theorem attributes_erase (h : attributes declared es = [])
    (hn : ∀ a ∈ declared, a.name = n → a.required = false) :
    attributes declared (Entries.erase es (.text n)) = [] := by
  obtain ⟨known, present, valid⟩ := attributes_eq_nil_iff.1 h
  refine attributes_eq_nil_iff.2 ⟨fun e he => known e (Entries.erase_sublist.subset he),
    fun a ha hrequired => ?_, fun a ha v hv => ?_⟩
  · have hne : a.name ≠ n := fun han => by
      rw [hn a ha han] at hrequired
      cases hrequired
    rw [Entries.get?_erase_of_ne hne]
    exact present a ha hrequired
  · by_cases han : a.name = n
    · rw [han, Entries.get?_erase_self] at hv
      cases hv
    · rw [Entries.get?_erase_of_ne han] at hv
      exact valid a ha v hv

/-- A value under a name that does not break what is declared: null takes the attribute away. -/
structure Accepts (declared : List Attribute) (n : String) (w : Value) : Prop where
  known : ∃ a ∈ declared, a.name = n
  removable : w.isNull = true → ∀ a ∈ declared, a.name = n → a.required = false
  valid : w.isNull = false → ∀ a ∈ declared, a.name = n → a.check w = []

theorem attributes_mergeRule (h : attributes declared es = []) (hw : Accepts declared n w) :
    attributes declared (Patch.mergeRule es (.text n) w) = [] := by
  unfold Patch.mergeRule
  split
  · next hnull => exact attributes_erase h (hw.removable hnull)
  · next hnull => exact attributes_insert h hw.known (hw.valid (Bool.eq_false_iff.2 hnull))

end Shape

namespace Patch

variable {es : Entries} {v w : Value} {n m : String} {fields rules : List (String × Value)}

/-! ### One entry -/

theorem get?_mergeRule_self : (Entries.get? (mergeRule es (.text n) w) (.text n)).getD .null = w := by
  unfold mergeRule
  split
  · next hnull =>
      rw [Entries.get?_erase_self]
      cases w <;> first | rfl | cases hnull
  · rw [Entries.get?_insert_self]
    rfl

theorem get?_mergeRule_of_ne {k : Value} (h : k ≠ .text m) :
    Entries.get? (mergeRule es k w) (.text m) = Entries.get? es (.text m) := by
  unfold mergeRule
  split
  · exact Entries.get?_erase_of_ne_key h
  · exact Entries.get?_insert_of_ne_key h

/-- The rules of a field after a patch of its rules. -/
def mergedRules (v : Value) (rules : List (String × Value)) : Entries :=
  rules.foldl (fun rs r => mergeRule rs (.text r.1) r.2) (rulesOf v)

theorem mergeAttribute_validation (v : Value) (rules : Entries) :
    mergeAttribute v (.text "validation") (.map rules) = mergeRules v rules := by
  have hid : (Value.text "id").same (.text "validation") = false :=
    Value.same_text_eq_false_iff.2 (by simp)
  have hvalidation : (Value.text "validation").same (.text "validation") = true :=
    Value.same_text_iff.2 rfl
  unfold mergeAttribute
  rw [hid, hvalidation, if_neg Bool.false_ne_true]

theorem mergeAttribute_rules :
    mergeAttribute v (.text "validation") (.ofFields rules) =
      if !(mergedRules v rules).isEmpty || v.has "validation" then
        v.put "validation" (.map (mergedRules v rules)) else v := by
  rw [Value.ofFields, mergeAttribute_validation, mergeRules, List.foldl_map]
  rfl

/-- What is neither the id nor a mapping of rules is merged like a rule. -/
theorem mergeAttribute_map {k : Value} (hid : k ≠ .text "id")
    (h : k = .text "validation" → w.isMap = false) :
    mergeAttribute (.map es) k w = .map (mergeRule es k w) := by
  have hnot : w.isMap = true → (Value.text "validation").same k = false := by
    intro hmap
    refine Value.same_text_eq_false_iff.2 fun heq => ?_
    rw [h heq] at hmap
    cases hmap
  unfold mergeAttribute
  rw [Value.same_text_eq_false_iff.2 hid, if_neg Bool.false_ne_true]
  cases w with
  | map rs =>
      rw [hnot rfl]
      rfl
  | _ => rfl

theorem mergeAttribute_of_ne (hid : n ≠ "id") (h : n = "validation" → w.isMap = false) :
    mergeAttribute (.map es) (.text n) w = .map (mergeRule es (.text n) w) :=
  mergeAttribute_map (fun heq => hid (Value.text.inj heq)) fun heq => h (Value.text.inj heq)

private theorem mergeRules_cases (v : Value) (rules : Entries) :
    mergeRules v rules = v ∨ ∃ es u, v = .map es ∧
      mergeRules v rules = .map (Entries.insert es (.text "validation") u) := by
  unfold mergeRules
  dsimp only
  split
  · cases v with
    | map es => exact .inr ⟨es, _, rfl, rfl⟩
    | _ => exact .inl rfl
  · exact .inl rfl

/-- An entry of a patch puts one attribute in place, takes it away, or does nothing. -/
theorem mergeAttribute_cases (v k w : Value) :
    mergeAttribute v k w = v ∨ ∃ es, v = .map es ∧
      ((∃ u, mergeAttribute v k w = .map (Entries.insert es k u)) ∨
        mergeAttribute v k w = .map (Entries.erase es k)) := by
  unfold mergeAttribute
  split
  · exact .inl rfl
  split
  · next hname =>
      obtain rfl := Value.same_text_iff.1 hname
      exact (mergeRules_cases _ _).imp_right fun ⟨es, u, hv, heq⟩ => ⟨es, hv, .inl ⟨u, heq⟩⟩
  · exact .inr ⟨_, rfl, .inr rfl⟩
  · exact .inr ⟨_, rfl, .inl ⟨_, rfl⟩⟩
  · exact .inl rfl

theorem isMap_mergeAttribute {k : Value} : (mergeAttribute v k w).isMap = v.isMap := by
  rcases mergeAttribute_cases v k w with h | ⟨es, rfl, ⟨u, h⟩ | h⟩ <;> rw [h] <;> rfl

theorem get?_mergeAttribute_of_ne {k : Value} (h : k ≠ .text m) :
    (mergeAttribute v k w).get? m = v.get? m := by
  rcases mergeAttribute_cases v k w with heq | ⟨es, rfl, ⟨u, heq⟩ | heq⟩
  · rw [heq]
  · rw [heq]
    exact Entries.get?_insert_of_ne_key h
  · rw [heq]
    exact Entries.get?_erase_of_ne_key h

private theorem mergeRules_put {rules : Entries} (hv : (v.get? m).isSome = true)
    (hm : m ≠ "validation") :
    mergeRules (v.put m w) rules = (mergeRules v rules).put m w := by
  unfold mergeRules
  dsimp only
  rw [rulesOf, rulesOf, Value.getOrNull_put_of_ne hm.symm, Value.has, Value.has,
    Value.get?_put_of_ne hm.symm]
  split
  · exact Value.put_put_of_ne hm.symm hv
  · rfl

theorem mergeAttribute_put {k u : Value} (hv : (v.get? m).isSome = true) (hk : k ≠ .text m) :
    mergeAttribute (v.put m w) k u = (mergeAttribute v k u).put m w := by
  obtain ⟨es, rfl⟩ := Value.exists_eq_map (Value.isMap_of_get? hv)
  by_cases hid : k = .text "id"
  · unfold mergeAttribute
    rw [if_pos (Value.same_text_iff.2 hid), if_pos (Value.same_text_iff.2 hid)]
  by_cases hrules : k = .text "validation" ∧ u.isMap = true
  · obtain ⟨rfl, hmap⟩ := hrules
    obtain ⟨rules, rfl⟩ := Value.exists_eq_map hmap
    rw [mergeAttribute_validation, mergeAttribute_validation]
    exact mergeRules_put hv fun heq => hk (heq ▸ rfl)
  · have hplain : k = .text "validation" → u.isMap = false := fun heq =>
      Bool.eq_false_iff.2 fun hmap => hrules ⟨heq, hmap⟩
    rw [Value.put, mergeAttribute_map hid hplain, mergeAttribute_map hid hplain]
    unfold mergeRule
    split
    · exact congrArg Value.map (Entries.erase_insert_of_ne_key hk)
    · exact congrArg Value.map (Entries.insert_insert_of_ne_key hk (Entries.get?_isSome_iff.1 hv))

/-! ### All entries -/

theorem isMap_merge {patch : Entries} : (merge v patch).isMap = v.isMap := by
  induction patch generalizing v with
  | nil => rfl
  | cons e patch ih =>
      rw [merge, List.foldl_cons]
      exact ih.trans isMap_mergeAttribute

/-- What a patch does not name stays as it is. -/
theorem get?_merge_of_notMem {patch : Entries} (h : m ∉ Entries.names patch) :
    (merge v patch).get? m = v.get? m := by
  induction patch generalizing v with
  | nil => rfl
  | cons e patch ih =>
      obtain ⟨k, w⟩ := e
      rw [Entries.mem_names_iff] at h
      rw [merge, List.foldl_cons]
      refine (ih ?_).trans (get?_mergeAttribute_of_ne ?_)
      · rw [Entries.mem_names_iff]
        exact fun ⟨u, hu⟩ => h ⟨u, .tail _ hu⟩
      · rintro rfl
        exact h ⟨w, .head _⟩

/-- What is there and not named by a patch can be changed before or after the patch. -/
theorem merge_put {patch : Entries} (hv : (v.get? m).isSome = true) (hm : m ∉ Entries.names patch) :
    merge (v.put m w) patch = (merge v patch).put m w := by
  induction patch generalizing v with
  | nil => rfl
  | cons e patch ih =>
      obtain ⟨k, u⟩ := e
      rw [Entries.mem_names_iff] at hm
      have hk : k ≠ .text m := by
        rintro rfl
        exact hm ⟨u, .head _⟩
      rw [merge, List.foldl_cons, mergeAttribute_put hv hk, ← merge, ih, merge, merge,
        List.foldl_cons]
      · rwa [get?_mergeAttribute_of_ne hk]
      · rw [Entries.mem_names_iff]
        exact fun ⟨x, hx⟩ => hm ⟨x, .tail _ hx⟩

/-- What a patch names once comes from that entry alone. -/
theorem exists_mergeAttribute {patch : Entries} (hpatch : (Entries.names patch).Nodup)
    (h : Entries.get? patch (.text n) = some w) (v : Value) :
    ∃ u : Value, u.isMap = v.isMap ∧ u.get? n = v.get? n ∧
      (merge v patch).get? n = (mergeAttribute u (.text n) w).get? n := by
  obtain ⟨before, after, rfl⟩ := List.append_of_mem (Entries.mem_of_get?_eq_some h)
  rw [Entries.names_append, Entries.names_cons_text] at hpatch
  obtain ⟨-, hafter, hbefore⟩ := List.nodup_append.1 hpatch
  refine ⟨merge v before, isMap_merge, ?_, ?_⟩
  · exact get?_merge_of_notMem fun hmem => hbefore n hmem n (.head _) rfl
  · rw [merge, List.foldl_append, List.foldl_cons]
    exact get?_merge_of_notMem (List.nodup_cons.1 hafter).1

/-- A field with all attributes of a patch changed, the patch being given by its names and values. -/
def mergeFields (v : Value) (fields : List (String × Value)) : Value :=
  fields.foldl (fun v f => mergeAttribute v (.text f.1) f.2) v

theorem merge_ofFields (v : Value) (fields : List (String × Value)) :
    merge v (fields.map fun f => (.text f.1, f.2)) = mergeFields v fields := by
  rw [merge, List.foldl_map]
  rfl

theorem mergeFields_append (v : Value) (fields more : List (String × Value)) :
    mergeFields v (fields ++ more) = mergeFields (mergeFields v fields) more :=
  List.foldl_append

theorem isMap_mergeFields : (mergeFields v fields).isMap = v.isMap := by
  rw [← merge_ofFields, isMap_merge]

theorem get?_mergeFields_of_notMem (h : m ∉ fields.map Prod.fst) :
    (mergeFields v fields).get? m = v.get? m := by
  rw [← merge_ofFields]
  exact get?_merge_of_notMem (by rwa [Entries.names_ofFields])

private theorem exists_mergeAttribute_field (hfields : (fields.map Prod.fst).Nodup)
    (h : (n, w) ∈ fields) :
    ∃ u : Value, u.isMap = v.isMap ∧ u.get? n = v.get? n ∧
      (mergeFields v fields).get? n = (mergeAttribute u (.text n) w).get? n := by
  rw [← merge_ofFields]
  exact exists_mergeAttribute (by rwa [Entries.names_ofFields]) (Entries.get?_ofFields hfields h) v

theorem getOrNull_mergeFields (hv : v.isMap = true) (hfields : (fields.map Prod.fst).Nodup)
    (h : (n, w) ∈ fields) (hid : n ≠ "id") (hw : n = "validation" → w.isMap = false) :
    (mergeFields v fields).getOrNull n = w := by
  obtain ⟨u, hu, -, hget⟩ := exists_mergeAttribute_field (v := v) hfields h
  rw [hv] at hu
  rw [Value.getOrNull, hget]
  cases u with
  | map es =>
      rw [mergeAttribute_of_ne hid hw]
      exact get?_mergeRule_self
  | _ => cases hu

/-- Rules are merged like attributes. -/
theorem map_mergedRules (h : ∀ r ∈ rules, r.1 ≠ "id" ∧ r.1 ≠ "validation") (v : Value) :
    .map (mergedRules v rules) = mergeFields (.map (rulesOf v)) rules := by
  unfold mergedRules mergeFields
  generalize rulesOf v = es
  induction rules generalizing es with
  | nil => rfl
  | cons r rules ih =>
      obtain ⟨⟨hid, hvalidation⟩, hrules⟩ := List.forall_mem_cons.1 h
      rw [List.foldl_cons, List.foldl_cons, ih hrules,
        mergeAttribute_of_ne hid fun heq => absurd heq hvalidation]

theorem getOrNull_mergeFields_rules {r : String} (hv : v.isMap = true)
    (hfields : (fields.map Prod.fst).Nodup) (h : ("validation", .ofFields rules) ∈ fields)
    (hrules : (rules.map Prod.fst).Nodup) (hnames : ∀ r ∈ rules, r.1 ≠ "id" ∧ r.1 ≠ "validation")
    (hr : (r, w) ∈ rules) :
    ((mergeFields v fields).getOrNull "validation").getOrNull r = w := by
  obtain ⟨u, hu, -, hget⟩ := exists_mergeAttribute_field (v := v) hfields h
  have hmerged : (Value.map (mergedRules u rules)).getOrNull r = w := by
    rw [map_mergedRules hnames]
    exact getOrNull_mergeFields rfl hrules hr (hnames _ hr).1 fun heq =>
      absurd heq (hnames _ hr).2
  have hvalidation : (mergeFields v fields).getOrNull "validation" =
      (mergeAttribute u (.text "validation") (.ofFields rules)).getOrNull "validation" := by
    rw [Value.getOrNull, hget, Value.getOrNull]
  rw [hvalidation, mergeAttribute_rules]
  split
  · rw [Value.getOrNull_put_self (hu.trans hv)]
    exact hmerged
  · next hnone =>
      simp only [Bool.or_eq_true, not_or, Bool.not_eq_true, Bool.not_eq_false',
        List.isEmpty_iff, Value.has, Option.isSome_eq_false_iff, Option.isNone_iff_eq_none] at hnone
      have hnull : u.getOrNull "validation" = .null := by rw [Value.getOrNull, hnone.2]; rfl
      rw [hnone.1] at hmerged
      rw [← hmerged, hnull]
      rfl

/-! ### Shape -/

variable {declared : List Shape.Attribute}

/-- Entries that are accepted one by one leave nothing to complain about. -/
theorem attributes_mergeFields (h : Shape.attributes declared es = [])
    (hfields : ∀ f ∈ fields, f.1 ≠ "id" ∧ (f.1 = "validation" → f.2.isMap = false) ∧
      Shape.Accepts declared f.1 f.2) :
    ∃ fs, mergeFields (.map es) fields = .map fs ∧ Shape.attributes declared fs = [] := by
  induction fields generalizing es with
  | nil => exact ⟨es, rfl, h⟩
  | cons f fields ih =>
      obtain ⟨⟨hid, hmap, haccepts⟩, hrest⟩ := List.forall_mem_cons.1 hfields
      rw [mergeFields, List.foldl_cons, mergeAttribute_of_ne hid hmap]
      exact ih (Shape.attributes_mergeRule h haccepts) hrest

/-- The rules that a field may have. -/
def ruleAttributes : List Shape.Attribute :=
  [⟨"min", false, Shape.optional Shape.measure⟩, ⟨"max", false, Shape.optional Shape.measure⟩,
    ⟨"regex", false, Shape.optional Shape.text⟩]

theorem attributes_rulesOf (h : Shape.optional Shape.rules (v.getOrNull "validation") = []) :
    Shape.attributes ruleAttributes (rulesOf v) = [] := by
  unfold rulesOf
  generalize v.getOrNull "validation" = rs at h
  cases rs with
  | null => rfl
  | map es =>
      rcases Shape.optional_eq_nil_iff.1 h with h | h
      · cases h
      · exact h
  | _ =>
      rcases Shape.optional_eq_nil_iff.1 h with h | h
      · cases h
      · exact absurd h Shape.here_ne_nil

/-- Rules that are accepted one by one leave nothing to complain about. -/
theorem attributes_mergeAttribute_rules (h : Shape.attributes declared es = [])
    (hknown : ∃ a ∈ declared, a.name = "validation")
    (hcheck : ∀ a ∈ declared, a.name = "validation" → a.check = Shape.optional Shape.rules)
    (hrules : ∀ r ∈ rules, r.1 ≠ "id" ∧ r.1 ≠ "validation" ∧
      Shape.Accepts ruleAttributes r.1 r.2) :
    ∃ fs, mergeAttribute (.map es) (.text "validation") (.ofFields rules) = .map fs ∧
      Shape.attributes declared fs = [] := by
  have hpresent : Shape.optional Shape.rules ((Value.map es).getOrNull "validation") = [] := by
    obtain ⟨-, -, valid⟩ := Shape.attributes_eq_nil_iff.1 h
    obtain ⟨a, ha, hname⟩ := hknown
    rw [Value.getOrNull, Value.get?_map]
    cases hw : Entries.get? es (.text "validation") with
    | none => rfl
    | some w =>
        have := valid a ha w (hname ▸ hw)
        rwa [hcheck a ha hname] at this
  have hplain : ∀ r ∈ rules, r.1 ≠ "id" ∧ (r.1 = "validation" → r.2.isMap = false) ∧
      Shape.Accepts _ r.1 r.2 := fun r hr =>
    ⟨(hrules r hr).1, fun heq => absurd heq (hrules r hr).2.1, (hrules r hr).2.2⟩
  obtain ⟨fs, hfs, hattributes⟩ := attributes_mergeFields (attributes_rulesOf hpresent) hplain
  rw [← map_mergedRules (fun r hr => ⟨(hrules r hr).1, (hrules r hr).2.1⟩), Value.map.injEq] at hfs
  rw [mergeAttribute_rules]
  split
  · refine ⟨_, rfl, Shape.attributes_insert h hknown fun a ha hname => ?_⟩
    rw [hcheck a ha hname, hfs]
    exact Shape.optional_eq_nil_iff.2 (.inr hattributes)
  · exact ⟨es, rfl, h⟩

end Patch

end FormDesigner
