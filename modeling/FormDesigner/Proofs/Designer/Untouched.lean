import FormDesigner.Proofs.Designer.Defaults
import FormDesigner.Proofs.Designer.Merging
import FormDesigner.Proofs.Store.Updating

/-!
# Fields that come back from their boxes
-/

namespace FormDesigner

open FormDesigner.Field (ofValue)

namespace Designer

open Inspector (BoundRead Choice parseDefault ofNumber?)
open Patch (mergeFields)
open Binary64 (IsExact)

variable {v w d : Value} {a b : Option Number} {os : Option (List Value)} {n : String}

/-- Two fields agree in their keys, types, labels, default values, bounds and options. -/
structure SaysTheSame (v w : Value) : Prop where
  values : ∀ n ∈ ["key", "type", "label", "defaultValue"], w.getOrNull n = v.getOrNull n
  bounds : ∀ n ∈ ["min", "max"], (w.rules.getOrNull n).equals (v.rules.getOrNull n) = true
  options : (w.getOrNull "options").equals (v.getOrNull "options") = true

/-- A field whose key has no blanks around it, whose default value is not a text that means
something else in YAML, whose bounds are not integers that rounding changes, and each of whose
options can be written on a line. -/
structure ComesBack (v : Value) : Prop where
  key : ∀ s, v.getOrNull "key" = .text s → Text.trim s = s
  default : ∀ s, v.getOrNull "defaultValue" = .text s → parseDefault (.text s) = .ok (.text s)
  bounds : ∀ n ∈ ["min", "max"], ∀ k, v.rules.getOrNull n = .int k → IsExact k
  options : ∀ xs, v.getOrNull "options" = .list xs → ∀ x ∈ xs, ∀ o : Choice,
    o.IsWrittenIn x → o.IsWritable

theorem isJson_rules (hv : v.IsJson) : v.rules.IsJson := hv.getOrNull trivial

theorem SaysTheSame.refl (hv : v.IsJson) : SaysTheSame v v where
  values _ _ := rfl
  bounds _ _ := Json.equals_self ((isJson_rules hv).getOrNull trivial)
  options := Json.equals_self (hv.getOrNull trivial)

/-! ### What is merged -/

section Merged

variable (hv : v.isMap = true)
include hv

private theorem mergeFields_plain {f : String × Value} (hf : f ∈ plainFields v d) :
    (mergeFields v (patchFields v d a b os)).getOrNull f.1 = f.2 := by
  have hname := List.mem_map_of_mem (f := Prod.fst) hf
  refine Patch.getOrNull_mergeFields hv nodup_patchFields
    (List.mem_append_left _ (List.mem_append_left _ hf)) (fun heq => ?_) fun heq => ?_
  · rw [heq] at hname
    exact absurd hname (by simp [plainFields])
  · rw [heq] at hname
    exact absurd hname (by simp [plainFields])

theorem mergeFields_key : (mergeFields v (patchFields v d a b os)).getOrNull "key" =
    .text (Text.trim (textIn v "key")) :=
  mergeFields_plain hv (f := ("key", _)) (by simp [plainFields])

theorem mergeFields_label : (mergeFields v (patchFields v d a b os)).getOrNull "label" =
    .text (textIn v "label") :=
  mergeFields_plain hv (f := ("label", _)) (by simp [plainFields])

theorem mergeFields_default :
    (mergeFields v (patchFields v d a b os)).getOrNull "defaultValue" = d :=
  mergeFields_plain hv (f := ("defaultValue", _)) (by simp [plainFields])

private theorem mergeFields_rule {f : String × Value} (hf : f ∈ ruleFields v a b) :
    (mergeFields v (patchFields v d a b os)).rules.getOrNull f.1 = f.2 :=
  Patch.getOrNull_mergeFields_rules hv nodup_patchFields
    (List.mem_append_left _ (List.mem_append_right _ (List.mem_singleton_self _)))
    (by simp [ruleFields]) (by simp [ruleFields]) hf

theorem mergeFields_min :
    (mergeFields v (patchFields v d a b os)).rules.getOrNull "min" = ofNumber? a :=
  mergeFields_rule hv (f := ("min", _)) (.head _)

theorem mergeFields_max :
    (mergeFields v (patchFields v d a b os)).rules.getOrNull "max" = ofNumber? b :=
  mergeFields_rule hv (f := ("max", _)) (.tail _ (.head _))

theorem mergeFields_options {xs : List Value} :
    (mergeFields v (patchFields v d a b (some xs))).getOrNull "options" = .list xs :=
  Patch.getOrNull_mergeFields hv nodup_patchFields
    (List.mem_append_right _ (List.mem_singleton_self _)) (by simp) (by simp)

end Merged

theorem mergeFields_of_notMem (h : n ∉ (patchFields v d a b os).map Prod.fst) :
    (mergeFields v (patchFields v d a b os)).getOrNull n = v.getOrNull n :=
  congrArg (·.getD .null) (Patch.get?_mergeFields_of_notMem h)

theorem mergeFields_without_options :
    (mergeFields v (patchFields v d a b none)).getOrNull "options" = v.getOrNull "options" :=
  mergeFields_of_notMem (by rw [names_patchFields]; simp)

theorem mergeFields_type :
    (mergeFields v (patchFields v d a b os)).getOrNull "type" = v.getOrNull "type" :=
  mergeFields_of_notMem (by rw [names_patchFields]; cases os <;> simp)

theorem textIn_eq {s : String} (h : v.getOrNull n = .text s) : textIn v n = s := by
  rw [textIn, h]
  rfl

theorem OptionsRead.equals_iff (h : OptionsRead v os) (hv : v.isMap = true) :
    ((mergeFields v (patchFields v d a b os)).getOrNull "options").equals
        (v.getOrNull "options") = true ↔
      ∀ xs, v.getOrNull "options" = .list xs → ∀ x ∈ xs, ∀ o : Choice,
        o.IsWrittenIn x → o.IsWritable := by
  cases h with
  | none held =>
      rw [mergeFields_without_options, held]
      exact iff_of_true (Json.equals_self (.scalar rfl trivial))
        fun xs hxs => Value.noConfusion hxs
  | some _ held written back =>
      rw [mergeFields_options hv, held, Inspector.equals_list_iff written, back,
        Choice.forall_isWritable_iff written]
      refine ⟨?_, fun h => h _ rfl⟩
      rintro h _ ⟨⟩
      exact h

/-- What comes back is the default value that was read, and all else that can come back. -/
theorem saysTheSame_iff (hv : v.Fits) (hlow : BoundRead (v.rules.getOrNull "min") a)
    (hhigh : BoundRead (v.rules.getOrNull "max") b) (hoptions : OptionsRead v os) :
    SaysTheSame v (mergeFields v (patchFields v d a b os)) ↔
      d = v.getOrNull "defaultValue" ∧ (∀ s, v.getOrNull "key" = .text s → Text.trim s = s) ∧
        (∀ n ∈ ["min", "max"], ∀ k, v.rules.getOrNull n = .int k → IsExact k) ∧
          ∀ xs, v.getOrNull "options" = .list xs → ∀ x ∈ xs, ∀ o : Choice,
            o.IsWrittenIn x → o.IsWritable := by
  obtain ⟨key, -, hkey⟩ := hv.key
  obtain ⟨label, hlabel⟩ := hv.label
  constructor
  · rintro ⟨hvalues, hbounds, hsame⟩
    simp only [List.forall_mem_cons, mergeFields_key hv.isMap, mergeFields_default hv.isMap, hkey,
      textIn_eq hkey] at hvalues
    simp only [List.forall_mem_cons, mergeFields_min hv.isMap, mergeFields_max hv.isMap] at hbounds
    refine ⟨hvalues.2.2.2.1, fun s hs => ?_, ?_, (hoptions.equals_iff hv.isMap).1 hsame⟩
    · rw [hkey] at hs
      rw [← Value.text.inj hs]
      exact Value.text.inj hvalues.1
    · simp only [List.forall_mem_cons]
      exact ⟨hlow.back.1 hbounds.1, hhigh.back.1 hbounds.2.1, List.forall_mem_nil _⟩
  · rintro ⟨rfl, htrim, hbounds, hback⟩
    simp only [List.forall_mem_cons] at hbounds
    refine ⟨?_, ?_, (hoptions.equals_iff hv.isMap).2 hback⟩
    · simp only [List.forall_mem_cons, mergeFields_key hv.isMap, mergeFields_type,
        mergeFields_label hv.isMap, mergeFields_default hv.isMap, textIn_eq hkey, textIn_eq hlabel,
        htrim key hkey, hkey, hlabel]
      exact ⟨trivial, trivial, trivial, trivial, List.forall_mem_nil _⟩
    · simp only [List.forall_mem_cons, mergeFields_min hv.isMap, mergeFields_max hv.isMap]
      exact ⟨hlow.back.2 hbounds.1, hhigh.back.2 hbounds.2.1, List.forall_mem_nil _⟩

/-! ### Without differences -/

open Difference (between between_getOrNull eq_of_between_text eq_of_between_int)

theorem eq_of_between_choice {c p : Choice} (hc : c.IsWrittenIn w)
    (h : between w p.toValue = []) : p = c := by
  have hget : ∀ {n s t : String}, w.get? n = some (.text s) → p.toValue.get? n = some (.text t) →
      Difference.isPrivate (.text n) = false → t = s := by
    intro n s t hw hp hn
    have hsame := eq_of_between_text
      (between_getOrNull h hn (congrArg (·.getD .null) hw) Value.noConfusion)
    rw [Value.getOrNull, hp] at hsame
    exact Value.text.inj hsame
  have hvalue := hget hc.value p.isWrittenIn_toValue.value (by decide +kernel)
  have hlabel := hget hc.label p.isWrittenIn_toValue.label (by decide +kernel)
  obtain ⟨value, label⟩ := p
  exact congrArg₂ Choice.mk hvalue hlabel

theorem eq_of_between_choices {cs ps : List Choice} {xs : List Value}
    (hcs : List.Forall₂ Choice.IsWrittenIn cs xs) (hne : xs ≠ [])
    (h : between (.list xs) (.list (ps.map Choice.toValue)) = []) : ps = cs := by
  have hplain : xs.all Difference.isPlain = false := by
    cases hcs with
    | nil => exact absurd rfl hne
    | cons hc _ =>
        obtain ⟨es, rfl, -⟩ := hc.entries
        rfl
  have hitems := Difference.forall₂_of_between_list hplain h
  clear hne hplain h
  induction hcs generalizing ps with
  | nil =>
      cases ps with
      | nil => rfl
      | cons => cases hitems
  | cons hc _ ih =>
      cases ps with
      | nil => cases hitems
      | cons p ps =>
          cases hitems with
          | cons hitem hitems =>
              exact congrArg₂ List.cons (eq_of_between_choice hc hitem) (ih hitems)

theorem OptionsRead.of_between (h : OptionsRead v os) (hv : v.isMap = true)
    (hsame : between v (mergeFields v (patchFields v d a b os)) = []) :
    ∀ xs, v.getOrNull "options" = .list xs → ∀ x ∈ xs, ∀ o : Choice,
      o.IsWrittenIn x → o.IsWritable := by
  refine (h.equals_iff (d := d) (a := a) (b := b) hv).1 ?_
  cases h with
  | none held =>
      rw [mergeFields_without_options, held]
      exact Json.equals_self (.scalar rfl trivial)
  | @some ps cs xs _ held written back =>
      have hlist := between_getOrNull hsame (by decide +kernel) held Value.noConfusion
      rw [mergeFields_options hv] at hlist
      rw [mergeFields_options hv, held, Inspector.equals_list_iff written]
      by_cases hne : xs = []
      · subst hne
        cases written
        exact back.2 (List.forall_mem_nil _)
      · exact eq_of_between_choices written hne hlist

/-- If there are no changes between a field and what is made of it, it comes back. -/
theorem comesBack_of_between (hv : v.Fits) (hlow : BoundRead (v.rules.getOrNull "min") a)
    (hhigh : BoundRead (v.rules.getOrNull "max") b) (hoptions : OptionsRead v os)
    (hdefault : ∀ s, v.getOrNull "defaultValue" = .text s → parseDefault (.text s) = .ok d)
    (hsame : between v (mergeFields v (patchFields v d a b os)) = []) : ComesBack v where
  key s hs := by
    have hkey := eq_of_between_text
      (between_getOrNull hsame (by decide +kernel) hs Value.noConfusion)
    rw [mergeFields_key hv.isMap, textIn_eq hs] at hkey
    exact Value.text.inj hkey
  default s hs := by
    have hread := eq_of_between_text
      (between_getOrNull hsame (by decide +kernel) hs Value.noConfusion)
    rw [mergeFields_default hv.isMap] at hread
    rw [hdefault s hs, hread]
  bounds := by
    have hrule : ∀ n k, Difference.isPrivate (.text n) = false → v.rules.getOrNull n = .int k →
        (mergeFields v (patchFields v d a b os)).rules.getOrNull n = .int k := by
      intro n k hn hk
      have hrules : v.getOrNull "validation" ≠ .null := by
        intro hnull
        rw [Value.rules, hnull] at hk
        cases hk
      have hsame := between_getOrNull hsame (by decide +kernel) rfl hrules
      exact eq_of_between_int (between_getOrNull hsame hn hk Value.noConfusion)
    have hequal : ∀ k, (Value.int k).equals (.int k) = true := fun k => by
      simp [Value.equals, Value.asQuantity?, Number.eq, Number.compare?]
    simp only [List.forall_mem_cons]
    refine ⟨fun k hk => hlow.back.1 ?_ k hk, fun k hk => hhigh.back.1 ?_ k hk,
      List.forall_mem_nil _⟩
    · have hmin := hrule "min" k (by decide +kernel) hk
      rw [mergeFields_min hv.isMap] at hmin
      rw [hmin, hk, hequal]
    · have hmax := hrule "max" k (by decide +kernel) hk
      rw [mergeFields_max hv.isMap] at hmax
      rw [hmax, hk, hequal]
  options := hoptions.of_between hv.isMap hsame

/-! ### The form of a field -/

/-- What the untouched form of a field gives. The text of the default value is still to be read. -/
structure Untouched (v form : Value) (shown : String) (a b : Option Number)
    (os : Option (List Value)) : Prop where
  patch : Inspector.patch v form =
    (parseDefault (.text shown)).map fun d => .ofFields (patchFields v d a b os)
  text : ∀ s, v.getOrNull "defaultValue" = .text s → s = shown
  data : (∀ s, v.getOrNull "defaultValue" ≠ .text s) →
    parseDefault (.text shown) = .ok (v.getOrNull "defaultValue")
  low : BoundRead (v.rules.getOrNull "min") a
  high : BoundRead (v.rules.getOrNull "max") b
  options : OptionsRead v os

theorem optional_default (hv : v.Fits) :
    Shape.optional Shape.defaultValue (v.getOrNull "defaultValue") = [] :=
  Shape.optional_eq_nil_iff.2
    (hv.optional_of_shared "defaultValue" Shape.defaultValue (by simp [Shape.shared]))

/-- Every field can be shown. -/
theorem exists_untouched (hv : v.Fits) (hjson : v.IsJson) :
    ∃ form shown a b os, prefilled v = .ok form ∧ Untouched v form shown a b os := by
  have hmeasure : ∀ n, n = "min" ∨ n = "max" →
      Shape.optional Shape.measure (v.rules.getOrNull n) = [] := fun n hn =>
    Shape.optional_eq_nil_iff.2 ((hv.bound hn).imp_right Shape.requires_eq_nil_iff.2)
  have hrules := isJson_rules hjson
  obtain ⟨low, a, hlow, hparseLow, hreadLow⟩ :=
    Inspector.exists_bound (hrules.getOrNull trivial) (hmeasure "min" (.inl rfl))
  obtain ⟨high, b, hhigh, hparseHigh, hreadHigh⟩ :=
    Inspector.exists_bound (hrules.getOrNull trivial) (hmeasure "max" (.inr rfl))
  obtain ⟨options, os, hshown, hread, hoptions⟩ := exists_optionsRead hv hjson
  obtain ⟨shown, hdefault, hback⟩ :=
    Inspector.exists_default (hjson.getOrNull trivial) (optional_default hv)
  obtain ⟨type, htype⟩ := hv.exists_type
  refine ⟨formOf v shown low high options, shown, a, b, os, ?_, ?_, ?_, hback, hreadLow, hreadHigh,
    hoptions⟩
  · exact prefilled_eq_ok.2 ⟨shown, low, high, options, hdefault, hlow, hhigh, hshown, rfl⟩
  · exact patch_formOf hv htype hparseLow hparseHigh hshown hread
  · intro s hs
    rw [hs] at hdefault
    exact Except.ok.inj hdefault

theorem isPlainPatch : Editing.IsPlainPatch (patchFields v d a b os) where
  id := by rw [names_patchFields]; cases os <;> simp
  type := by rw [names_patchFields]; cases os <;> simp

/-- JSON can carry what the form gives if it can carry the default value. -/
theorem isJson_patchFields (hd : d.IsJson) (ha : (ofNumber? a).IsJson) (hb : (ofNumber? b).IsJson)
    (hos : ∀ xs ∈ os, (Value.list xs).IsJson) : ∀ f ∈ patchFields v d a b os, f.2.IsJson := by
  have hnull : Value.null.IsJson := .scalar rfl trivial
  have horNull : ∀ s, (Inspector.orNull s).IsJson := by
    intro s
    unfold Inspector.orNull
    split
    · exact hnull
    · exact .text s
  have hvalueOrNull : ∀ s, (Inspector.valueOrNull (.text s)).IsJson := by
    intro s
    unfold Inspector.valueOrNull
    split
    · exact .text s
    · exact hnull
  have hrules : (Value.ofFields (ruleFields v a b)).IsJson := by
    refine Value.IsIn.ofFields (by simp [ruleFields]) ?_
    simp only [ruleFields, List.forall_mem_cons]
    exact ⟨ha, hb, hvalueOrNull _, List.forall_mem_nil _⟩
  have hplain : ∀ f ∈ plainFields v d, f.2.IsJson := by
    simp only [plainFields, List.forall_mem_cons]
    refine ⟨.text _, .text _, ?_, hvalueOrNull _, ?_, horNull _, horNull _, hd,
      List.forall_mem_nil _⟩
    · split
      · exact .text _
      · exact hnull
    · split
      · exact .scalar rfl trivial
      · exact hnull
  refine List.forall_mem_append.2 ⟨List.forall_mem_append.2
    ⟨hplain, List.forall_mem_singleton.2 hrules⟩, fun f hf => ?_⟩
  obtain ⟨xs, hxs, rfl⟩ := Option.map_eq_some_iff.1 (Option.mem_toList.1 hf)
  exact hos xs hxs

/-! ### Handing it in -/

namespace Untouched

variable {s : Store} {id form : Value} {shown : String} (h : Untouched v form shown a b os)
  (hs : s.IsSound .json) (hfound : s.find? id = some (ofValue v))
include h hs hfound

/-- A field that says the same after its form was handed in comes back. -/
theorem comesBack (hd : parseDefault (.text shown) = .ok d) :
    (Editing.updateField id (.ofFields (patchFields v d a b os))).Ends s fun r t =>
      ∀ o g, r = .ok o → o.ok = true → t.find? id = some g → SaysTheSame v g.value →
        ComesBack v := by
  obtain ⟨w, -, -, heq, -, hv⟩ := hs.find? hfound
  obtain rfl := Field.ofValue_injective heq
  have hdefault : ∀ s, v.getOrNull "defaultValue" = .text s → parseDefault (.text s) = .ok d :=
    fun s hs => h.text s hs ▸ hd
  refine (Editing.updateField_leaves hs hv hfound isPlainPatch).mono fun r t hleaves => ?_
  intro o g ho hok hg hagree
  rcases hleaves o ho hok with hmerged | ⟨-, hsame⟩
  · obtain rfl := Option.some.inj (hg.symm.trans hmerged)
    rw [Field.value_ofValue] at hagree
    obtain ⟨hread, hkey, hbounds, hback⟩ := (saysTheSame_iff hv h.low h.high h.options).1 hagree
    refine ⟨hkey, fun s hs => ?_, hbounds, hback⟩
    rw [hdefault s hs, hread, hs]
  · refine comesBack_of_between hv h.low h.high h.options hdefault ?_
    simpa [Difference.differ] using hsame

/-- The form of a field that comes back can be handed in, and the field says the same afterwards. -/
theorem saysTheSame (hsave : s.CanSave) (hback : ComesBack v) :
    ∃ patch, Inspector.patch v form = .ok patch ∧
      (Editing.updateField id patch).Ends s fun r t =>
        ∃ o g, r = .ok o ∧ o.ok = true ∧ t.find? id = some g ∧ SaysTheSame v g.value := by
  obtain ⟨w, -, -, heq, hjson, hv⟩ := hs.find? hfound
  obtain rfl := Field.ofValue_injective heq
  have hd : parseDefault (.text shown) = .ok (v.getOrNull "defaultValue") := by
    by_cases hdefault : ∃ s, v.getOrNull "defaultValue" = .text s
    · obtain ⟨s, hs⟩ := hdefault
      rw [← h.text s hs, hs]
      exact hback.default s hs
    · exact h.data fun s hs => hdefault ⟨s, hs⟩
  have hagree := (saysTheSame_iff hv h.low h.high h.options).2
    ⟨rfl, hback.key, hback.bounds, hback.options⟩
  obtain ⟨key, hne, hkey⟩ := hv.key
  have hfits := fits_mergeFields hv (by rwa [textIn_eq hkey, hback.key key hkey])
    (optional_default hv) h.low.fits h.high.fits h.options.suit
  have hplain : Editing.IsPlainPatch (patchFields v (v.getOrNull "defaultValue") a b os) :=
    isPlainPatch
  have hsucceeds := Editing.updateField_succeeds hs hsave hfound hplain
    (isJson_patchFields (hjson.getOrNull trivial) h.low.isJson h.high.isJson h.options.isJson)
    nodup_patchFields hfits (hagree.values "key" (.head _))
    (by rw [names_patchFields]; cases os <;> simp)
  refine ⟨_, by rw [h.patch, hd]; rfl, ?_⟩
  obtain ⟨o, ho, hok⟩ := hsucceeds
  rcases Editing.updateField_leaves hs hv hfound hplain o ho hok with hmerged | ⟨ht, -⟩
  · exact ⟨o, _, ho, hok, hmerged, by rwa [Field.value_ofValue]⟩
  · exact ⟨o, _, ho, hok, (congrArg (Store.find? · id) ht).trans hfound,
      by rw [Field.value_ofValue]; exact .refl hjson⟩

end Untouched

end Designer

open Designer (ComesBack SaysTheSame)

/-- Take a field of a store that was only ever given what JSON can carry. While nothing is entered,
its form is read as one and the same, and handing it in goes well and leaves the field with its key,
type, label, default value, bounds and options exactly if it is a field that comes back. -/
theorem Store.Reachable.untouched_form_iff {s : Store} {k id : Value} {f : Field}
    (hs : s.Reachable (fun s c => c.Brings .json s) k) (hsave : s.CanSave)
    (hfound : s.find? id = some f) :
    ∃ form, (∀ visit start, visit.entered = [] → (Designer.drawForm f.value start).Answers visit
        (form, (Value.text "💾 Apply").among visit.pressed)) ∧
      ((∃ patch o t g, Inspector.patch f.value form = .ok patch ∧
        (Editing.updateField id patch).outcome s = (.ok o, t) ∧ o.ok = true ∧
          t.find? id = some g ∧ SaysTheSame f.value g.value) ↔ ComesBack f.value) := by
  have hs := hs.isSound Value.Domain.isClosed_json fun _ _ h => h
  obtain ⟨v, -, -, rfl, hjson, hv⟩ := hs.find? hfound
  rw [Field.value_ofValue]
  obtain ⟨form, shown, a, b, os, hform, h⟩ := Designer.exists_untouched hv hjson
  obtain ⟨type, htype⟩ := hv.exists_type
  have htypeEntry := Value.entry_eq_ok_iff.2 (Value.get?_of_getOrNull htype Value.noConfusion)
  refine ⟨form, fun visit start hvisit =>
    Designer.drawForm_answers hvisit htypeEntry hform start, ?_⟩
  constructor
  · rintro ⟨patch, o, t, g, hread, hran, hok, hg, hagree⟩
    rw [h.patch] at hread
    obtain ⟨d, hd, rfl⟩ := Result.map_eq_ok.1 hread
    exact (h.comesBack hs hfound hd).outcome hran o g rfl hok hg hagree
  · intro hback
    obtain ⟨patch, hpatch, o, g, ho, hok, hg, hagree⟩ :=
      h.saysTheSame hs hfound hsave hback
    exact ⟨patch, o, _, g, hpatch, Prod.ext ho rfl, hok, hg, hagree⟩

/-- A text field whose default value is the word for a truth value. -/
def Value.truthWordField : Value :=
  .ofFields
    [("id", .text "a"), ("key", .text "a"), ("type", .text "text"), ("label", .text "A"),
      ("defaultValue", .text "true")]

theorem Value.truthWordField_isJson : Value.truthWordField.IsJson := by
  refine Value.IsIn.ofFields (by simp) ?_
  simp only [List.forall_mem_cons]
  exact ⟨.text _, .text _, .text _, .text _, .text _, List.forall_mem_nil _⟩

/-- A field without a default value comes back from its form, but one whose default value is the
word for a truth value does not. -/
theorem Store.truth_word_lost_in_form :
    let s := Store.bare.after [.addField .truthWordField, .addField (.textField "b")]
    s.Reachable (fun s c => c.Brings .json s) (.int 2) ∧ s.CanSave ∧
      (∃ f form, s.find? (.text "b") = some f ∧
        (∀ visit start, visit.entered = [] → (Designer.drawForm f.value start).Answers visit
          (form, (Value.text "💾 Apply").among visit.pressed)) ∧
        ∃ patch o t g, Inspector.patch f.value form = .ok patch ∧
          (Editing.updateField (.text "b") patch).outcome s = (.ok o, t) ∧ o.ok = true ∧
            t.find? (.text "b") = some g ∧ SaysTheSame f.value g.value) ∧
      ∃ f form, s.find? (.text "a") = some f ∧ f.value.getOrNull "defaultValue" = .text "true" ∧
        (∀ visit start, visit.entered = [] → (Designer.drawForm f.value start).Answers visit
          (form, (Value.text "💾 Apply").among visit.pressed)) ∧
        ¬ ∃ patch o t g, Inspector.patch f.value form = .ok patch ∧
          (Editing.updateField (.text "a") patch).outcome s = (.ok o, t) ∧ o.ok = true ∧
            t.find? (.text "a") = some g ∧ SaysTheSame f.value g.value := by
  intro s
  have edited : s.Reachable (fun s c => c.Brings .json s) (.int 2) := by
    refine Store.reachable_of_brings ?_
    simp only [List.forall_mem_cons]
    exact ⟨fun _ => Value.truthWordField_isJson, fun _ => Value.textField_isIn "b",
      List.forall_mem_nil _⟩
  have hsave : s.CanSave := Store.canSave_of_no_storage (by decide +kernel)
  have hplain : ((s.find? (.text "b")).map fun f => ((f.value.getOrNull "key").asText?,
      ["defaultValue", "validation", "options"].all fun n => (f.value.get? n).isNone)) =
        some (some "b", true) := by decide +kernel
  have hword : ((s.find? (.text "a")).map fun f =>
      (f.value.getOrNull "defaultValue").asText?) = some (some "true") := by decide +kernel
  obtain ⟨f, hf, hplain⟩ := Option.map_eq_some_iff.1 hplain
  obtain ⟨g, hg, hword⟩ := Option.map_eq_some_iff.1 hword
  rw [Value.asText?_eq_some_iff] at hword
  simp only [Prod.mk.injEq, Value.asText?_eq_some_iff, List.all_cons, List.all_nil, Bool.and_true,
    Bool.and_eq_true, Option.isNone_iff_eq_none] at hplain
  have hback : ComesBack f.value := by
    obtain ⟨hkey, hdefault, hrules, hoptions⟩ := hplain
    have hnull : ∀ {n}, f.value.get? n = none → f.value.getOrNull n = .null := fun hn => by
      rw [Value.getOrNull, hn]
      rfl
    refine ⟨fun t ht => ?_, fun t ht => ?_, fun n _ k hk => ?_, fun xs hxs => ?_⟩
    · obtain rfl := Value.text.inj (ht.symm.trans hkey)
      decide
    · cases (hnull hdefault).symm.trans ht
    · rw [Value.rules, hnull hrules] at hk
      cases hk
    · cases (hnull hoptions).symm.trans hxs
  have hlost : ¬ ComesBack g.value := fun h => by
    have hjson : (Value.bool true).IsJson := .scalar rfl trivial
    obtain ⟨l, hl, hreads⟩ := Yaml.exists_leaf (show Value.IsJsonScalar (.bool true) from trivial)
    obtain rfl := Option.some.inj (Except.ok.inj hl)
    have hread := hreads.read_text hl Yaml.Tag.noConfusion hjson
    have hlost := Inspector.parseDefault_text (by decide) (by decide) hread
    cases hlost.symm.trans (h.default "true" hword)
  obtain ⟨form, hform, hsame⟩ := Store.Reachable.untouched_form_iff edited hsave hf
  obtain ⟨form', hform', hsame'⟩ := Store.Reachable.untouched_form_iff edited hsave hg
  exact ⟨edited, hsave, ⟨f, form, hf, hform, hsame.2 hback⟩, g, form', hg, hword, hform',
    fun h => hlost (hsame'.1 h)⟩

end FormDesigner
