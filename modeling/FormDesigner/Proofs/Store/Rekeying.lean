import FormDesigner.Proofs.Field.Retyping
import FormDesigner.Proofs.Store.Applying
import FormDesigner.Proofs.Store.Pasting

/-!
# Edits that are refused for a key

A patch that does not say what a field owns leaves the field with what it owned, with nothing, or with
the new template of an array. So no id occurs twice after it, and a key occurs twice only if the key
that the patch asks for belongs to another field, or if it is the one that was drawn for the new
template: that is a key which the tree did not have, but nobody looks at what the patch asks for.
-/

namespace FormDesigner

open Work
open Value (gathered owned nodes text)
open FormDesigner.Field (ofValue)

namespace Editing

variable {D : Value.Domain} {s t u : Store} {id w new patch : Value} {entries : Entries}
  {fields : List Value} {f : Field} {r : Except Failure Outcome}

/-! ### Refusals -/

theorem code_notFound {o : Outcome} (h : notFound id = .ok o) : o.code = .notFound := by
  obtain ⟨_, -, h⟩ := Result.bind_eq_ok.1 h
  exact Except.ok.inj h ▸ rfl

theorem code_malformed? {o : Outcome} (h : malformed? new = some o) : o.code = .invalidField := by
  unfold malformed? at h
  dsimp only at h
  split at h
  · cases h
  · exact Option.some.inj h ▸ rfl

theorem code_refusedPatch? {o : Outcome} (h : refusedPatch? id w patch = .ok (some o)) :
    o.code = .invalidPatch := by
  have hrest : ∀ type : Value, (do
      if (FieldType.ofValue? type).isNone then
        return some (Outcome.failure .invalidPatch
          ("Unsupported field type '" ++ (← type.plain) ++ "'") id [])
      return none) = Except.ok (ε := Failure) (some o) → o.code = .invalidPatch := by
    intro type h
    split at h
    · obtain ⟨_, -, h⟩ := Result.bind_eq_ok.1 h
      exact Option.some.inj (Except.ok.inj h) ▸ rfl
    · cases h
  unfold refusedPatch? at h
  dsimp only at h
  split at h
  · split at h
    · exact Option.some.inj (Except.ok.inj h) ▸ rfl
    · exact hrest _ h
  · exact hrest _ h

/-- Fields with ids of their own can stand together, or a key occurs twice among them. -/
theorem clash?_of_nodup_ids (hfits : ∀ x ∈ fields, x.Fits)
    (hids : (fields.flatMap (gathered "id")).Nodup) :
    (fields.flatMap (gathered "key")).Nodup ∧ clash? fields = .ok none ∨
      ¬ (fields.flatMap (gathered "key")).Nodup ∧
        ∃ o, clash? fields = .ok (some o) ∧ o.code = .duplicateKey := by
  have htexts := gathered_texts hfits (.inr rfl)
  unfold clash?
  dsimp only
  rw [Forest.ofValues_eq_map, Forest.ids_map, Forest.keys_map,
    (duplicates_eq_nil_iff (gathered_texts hfits (.inl rfl))).2 hids, ← duplicates_eq_nil_iff htexts]
  dsimp only
  split
  · next key _ hkeys =>
      obtain ⟨n, rfl⟩ := htexts key (mem_of_mem_duplicates (hkeys ▸ List.mem_cons_self))
      rw [hkeys]
      exact .inr ⟨List.cons_ne_nil _ _, _, rfl, rfl⟩
  · next hkeys => exact .inl ⟨hkeys, rfl⟩

/-- So a commit of such fields is refused for nothing but a key. -/
theorem commitChecked_codes (hfits : ∀ x ∈ fields, x.Fits)
    (hids : (fields.flatMap (gathered "id")).Nodup) (label : String) (id : Value) :
    (commitChecked fields label id).Ends s fun r _ =>
      (∀ o, r = .ok o → o.code ≠ .duplicateId ∧
        (o.code = .duplicateKey → ¬ (fields.flatMap (gathered "key")).Nodup)) ∧
      (¬ (fields.flatMap (gathered "key")).Nodup → ∃ o, r = .ok o ∧ o.code = .duplicateKey) := by
  unfold commitChecked
  rw [ends_bind, ends_ofExcept]
  rcases clash?_of_nodup_ids hfits hids with ⟨hkeys, hclash⟩ | ⟨hkeys, o, hclash, hcode⟩
  · rw [hclash, andThen_ok]
    refine (commit_leaves fields label id).mono fun r t h => ⟨fun o ho => ?_, fun hnot => ?_⟩
    · rw [(h o ho).1]
      exact ⟨nofun, nofun⟩
    · exact absurd hkeys hnot
  · rw [hclash]
    refine ⟨?_, fun _ => ⟨o, rfl, hcode⟩⟩
    rintro _ ⟨⟩
    rw [hcode]
    exact ⟨nofun, fun _ => hkeys⟩

/-- What is worked out before an edit of a field commits: a field that fits and differs from the one
that was found. -/
structure Prepares (s : Store) (id patch : Value) (w new : Value) (u : Store) : Prop where
  found : s.find? id = some (ofValue w)
  accepted : refusedPatch? id w patch = .ok none
  made : ∃ entries, patch = .map entries ∧ (patched w entries).outcome s = (.ok new, u)
  fits : new.Fits

/-- A prepared edit commits. -/
theorem Prepares.outcome (h : Prepares s id patch w new u)
    (hdiffers : Difference.differ w new = true) :
    (updateField id patch).outcome s =
      (commitChecked (Forest.replace id new s.forest) "update_field" id).outcome u := by
  have attempts : Attempts s id patch (ofValue w) (.ok new) u := by
    refine ⟨h.found, ?_, ?_⟩ <;> rw [Field.value_ofValue]
    · exact h.accepted
    · exact h.made
  have hends : (updateField id patch).Ends s fun r t =>
      (r, t) = (commitChecked (Forest.replace id new s.forest) "update_field" id).outcome u := by
    rw [attempts.ends, malformed?_eq_none_iff.2 h.fits]
    dsimp only
    rw [Field.value_ofValue, if_pos hdiffers]
    rfl
  exact hends

/-- An edit that is refused for an id or a key was prepared. -/
theorem updateField_prepares (hs : s.IsSound D) :
    (updateField id patch).Ends s fun r _ => ∀ o, r = .ok o →
      o.code = .duplicateId ∨ o.code = .duplicateKey →
        ∃ w new u, Prepares s id patch w new u ∧ Difference.differ w new = true := by
  have hother : ∀ {o : Outcome} {code : ResultCode}, o.code = code → code ≠ .duplicateId →
      code ≠ .duplicateKey → ¬ (o.code = .duplicateId ∨ o.code = .duplicateKey) := by
    rintro o _ rfl hid hkey (h | h)
    · exact hid h
    · exact hkey h
  refine (updateField_cases id patch).mono fun r t h o ho hcode => ?_
  cases h with
  | unfit => exact absurd hcode (Except.ok.inj ho ▸ hother rfl nofun nofun)
  | missing => exact absurd hcode (hother (code_notFound ho) nofun nofun)
  | failed => cases ho
  | refused _ h =>
      exact absurd hcode (hother (code_refusedPatch? (Except.ok.inj ho ▸ h)) nofun nofun)
  | broken => cases ho
  | malformed _ shape =>
      exact absurd hcode (hother (code_malformed? (Except.ok.inj ho ▸ shape)) nofun nofun)
  | dropped => exact absurd hcode (Except.ok.inj ho ▸ hother rfl nofun nofun)
  | @stored f new u _ _ attempts shape differs _ =>
      obtain ⟨w, -, -, rfl, -⟩ := hs.find? attempts.found
      obtain ⟨found, accepted, made⟩ := attempts
      rw [Field.value_ofValue] at accepted made differs
      exact ⟨w, new, u, ⟨found, accepted, made, malformed?_eq_none_iff.1 shape⟩, differs⟩

/-! ### What a prepared field owns -/

/-- The patch turns a field into an array, and a key is drawn for the template. -/
structure DrawsKey (s : Store) (w patch : Value) (key : Value) : Prop where
  asked : patch.get? "type" = some (text FieldType.array.name)
  other : w.getOrNull "type" ≠ text FieldType.array.name
  drawn : ∃ k q, (Factory.templateKey s.keys).outcome (Factory.afterText s.host.supply) =
    (.ok k, q) ∧ key = text k

/-- What a field owns after a patch that does not say it: what it owned before, nothing, or a new
template. -/
inductive Reowned (s : Store) (w patch new : Value) : Prop
  | kept (same : (patch.get? "type").getD (w.getOrNull "type") = w.getOrNull "type")
      (gathered : ∀ n, n = "id" ∨ n = "key" →
        new.gathered n = new.getOrNull n :: (w.gathered n).tail)
  | alone (asked : patch.get? "type" ≠ some (text FieldType.array.name)) (owned : new.owned = [new])
  | templated {key : String} (drawn : DrawsKey s w patch (text key))
      (owned : new.owned = [new, .ofFields (Factory.basicField
        (s.host.supply.idAt s.host.supply.ids) key FieldType.text.name (text "Item"))])

theorem keys_text (hs : s.IsSound D) : ∀ k ∈ s.keys, ∃ n, k = text n := by
  intro k hk
  rw [Store.keys, Store.forest, Schema.keys_forest] at hk
  exact gathered_texts (fun x hx => (hs.fields x hx).2) (.inr rfl) k hk

/-- A field that keeps its type, and of which the patch does not say what it owns, owns what it
owned. -/
private theorem reowned_of_merged (hw : w.Fits) (hpatch : (Value.map entries).IsProper)
    (hchildren : Entries.get? entries (text "children") = none)
    (hof : Entries.get? entries (text "of") = none)
    (same : typeAsked w entries = w.getOrNull "type") :
    Reowned s w (.map entries) (Patch.merge w entries) := by
  have hmap : (Patch.merge w entries).isMap = w.isMap := Patch.isMap_merge
  have hmerged := Patch.merge_merged hw.isMap hpatch
  have hkept : ∀ n, n ≠ "id" → n ≠ "validation" → Entries.get? entries (text n) = none →
      (Patch.merge w entries).get? n = w.get? n := by
    intro n hid hvalidation hsaid
    rw [hmerged.other n hid (fun h => absurd h hvalidation), hsaid]
    rfl
  have htype : (Patch.merge w entries).get? "type" = w.get? "type" := by
    cases (Patched.merged (s := s) same).applied hw hpatch with
    | merged _ htype => exact htype
    | reshaped _ asked other =>
        obtain ⟨old, hold⟩ := hw.exists_type
        rw [typeAsked, asked, Option.getD_some] at same
        exact absurd (Value.get?_of_getOrNull same.symm fun h => by cases h) other
  have hnull : ∀ {n}, (Patch.merge w entries).get? n = w.get? n →
      (Patch.merge w entries).getOrNull n = w.getOrNull n := fun h => by
    rw [Value.getOrNull, h, Value.getOrNull]
  have hbelow : (Patch.merge w entries).childValues = w.childValues :=
    Value.childValues_congr hmap (hnull htype) (hnull (hkept _ (by decide) (by decide) hchildren))
  have htemplate : (Patch.merge w entries).templateValue? = w.templateValue? :=
    Value.templateValue?_congr hmap (hnull htype) (hkept _ (by decide) (by decide) hof)
  refine .kept same fun n _ => ?_
  rw [Value.gathered_eq, Value.gathered_eq n w, List.tail_cons, Value.fieldTemplate,
    Value.fieldTemplate, hbelow, htemplate]

/-- A field that gets another type owns at most a new template. -/
private theorem reowned_of_retyped (hs : s.IsSound D) (hw : w.Fits)
    (hpatch : (Value.map entries).IsProper)
    (hchildren : Entries.get? entries (text "children") = none)
    (hof : Entries.get? entries (text "of") = none) {t : FieldType}
    (asked : typeAsked w entries = text t.name) (other : w.getOrNull "type" ≠ text t.name)
    {q : Supply} (made : (Factory.retype (Patch.merge w entries) (text t.name)
      (.list s.keys)).outcome s.host.supply = (.ok new, q)) : Reowned s w (.map entries) new := by
  have hmap : (Patch.merge w entries).isMap = true := Patch.isMap_merge.trans hw.isMap
  have hmerged := Patch.merge_merged hw.isMap hpatch
  have hnone : ∀ n, n ≠ "id" → n ≠ "validation" → w.get? n = none →
      Entries.get? entries (text n) = none → (Patch.merge w entries).get? n = none := by
    intro n hid hvalidation hn hsaid
    rw [hmerged.other n hid (fun h => absurd h hvalidation), hn, hsaid]
    rfl
  have hnoChildren : t = .section → (Patch.merge w entries).get? "children" = none := by
    rintro rfl
    refine hnone _ (by decide) (by decide) ?_ hchildren
    cases hlist : w.get? "children" with
    | none => rfl
    | some list =>
        exact absurd (Value.isSection_iff.1 (hw.isSection_of_children hlist)).2 other
  have hnoTemplate : t = .array → (Patch.merge w entries).get? "of" = none := by
    rintro rfl
    refine hnone _ (by decide) (by decide) ?_ hof
    cases htemplate : w.get? "of" with
    | none => rfl
    | some x => exact absurd (Value.isArray_iff.1 (hw.isArray_of_template htemplate)).2 other
  rw [Factory.retype_eq_reshape hmap] at made
  rcases Factory.owned_reshape hmap hnoChildren hnoTemplate (keys_text hs) made with
    ⟨hother, howned⟩ | ⟨rfl, key, hdrawn, howned⟩
  · refine .alone (fun hasked => hother ?_) howned
    rw [typeAsked, show Entries.get? entries (text "type") = some _ from hasked,
      Option.getD_some] at asked
    exact (FieldType.name_injective (Value.text.inj asked)).symm
  · refine .templated ⟨?_, other, key, q, hdrawn, rfl⟩ howned
    cases hsaid : Entries.get? entries (text "type") with
    | none =>
        rw [typeAsked, hsaid, Option.getD_none] at asked
        exact absurd asked other
    | some x =>
        rw [typeAsked, hsaid, Option.getD_some] at asked
        rw [Value.get?_map, hsaid, asked]

theorem Prepares.reowned (hs : s.IsSound D) (h : Prepares s id patch w new u)
    (hpatch : patch.IsProper) (hchildren : patch.get? "children" = none)
    (hof : patch.get? "of" = none) : Reowned s w patch new ∧ ∃ q, u = s.withSupply q := by
  obtain ⟨entries, rfl, made⟩ := h.made
  obtain ⟨v, -, -, heq, -, hw⟩ := hs.find? h.found
  obtain rfl := Field.ofValue_injective heq
  obtain ⟨t, ht⟩ := exists_type_of_refusedPatch? h.accepted
  unfold patched at made
  dsimp only at made
  rw [show (Entries.get? entries (text "type")).getD _ = _ from ht] at made
  split at made
  · next hequals =>
      obtain ⟨hnew, rfl⟩ := Prod.mk.inj made
      obtain rfl := Except.ok.inj hnew
      refine ⟨reowned_of_merged hw hpatch hchildren hof ?_, s.host.supply, rfl⟩
      exact ht.trans (Value.equals_text_iff.1 hequals).symm
  · next hother =>
      have hran : ((Factory.retype (Patch.merge w entries) (text t.name) (.list s.keys)).outcome
          s.host.supply).1 = .ok new := congrArg Prod.fst made
      refine ⟨reowned_of_retyped hs hw hpatch hchildren hof ht
        (fun heq => hother (Value.equals_text_iff.2 heq)) (Prod.ext hran rfl), _,
        (congrArg Prod.snd made).symm⟩

/-! ### What occurs twice -/

section

variable {P : Value → Prop} {before after rest rest' : List Value} {a b : Value}

/-- What comes after the first of a stretch is left, dropped, or replaced by one value that is new. -/
inductive Renews (P : Value → Prop) (old rest : List Value) : List Value → Prop
  | left : Renews P old rest rest
  | dropped : Renews P old rest []
  | new {x : Value} (hx : P x) (fresh : x ∉ old) : Renews P old rest [x]

private theorem nodup_middle_iff : (before ++ b :: rest ++ after).Nodup ↔
    b ∉ before ++ rest ++ after ∧ (before ++ rest ++ after).Nodup := by
  rw [List.append_assoc, List.cons_append, List.perm_middle.nodup_iff, List.nodup_cons,
    ← List.append_assoc]

/-- So nothing occurs twice but, perhaps, the first of the stretch. -/
private theorem Renews.nodup_iff (h : Renews P (before ++ a :: rest ++ after) rest rest')
    (hold : (before ++ a :: rest ++ after).Nodup) :
    (before ++ b :: rest' ++ after).Nodup ↔ b ∉ before ++ rest' ++ after := by
  obtain ⟨-, hothers⟩ := nodup_middle_iff.1 hold
  have hbare : (before ++ [] ++ after).Nodup :=
    hothers.sublist ((List.nil_sublist rest).append_left before |>.append_right after)
  rw [nodup_middle_iff]
  refine and_iff_left ?_
  cases h with
  | left => exact hothers
  | dropped => exact hbare
  | @new x _ fresh =>
      refine nodup_middle_iff.2 ⟨fun hx => fresh ?_, hbare⟩
      simp only [List.append_nil, List.mem_append] at hx ⊢
      exact hx.imp .inl id

/-- What stands beside the first of the stretch stood there before, or is new. -/
private theorem Renews.mem (h : Renews P (before ++ a :: rest ++ after) rest rest')
    (hold : (before ++ a :: rest ++ after).Nodup) {x : Value} (hx : x ∈ before ++ rest' ++ after) :
    x ∈ before ++ a :: rest ++ after ∧ x ≠ a ∨ P x := by
  obtain ⟨hfirst, -⟩ := nodup_middle_iff.1 hold
  have hkept : x ∈ before ++ rest ++ after → x ∈ before ++ a :: rest ++ after ∧ x ≠ a := by
    intro hx
    refine ⟨?_, fun heq => hfirst (heq ▸ hx)⟩
    simp only [List.mem_append, List.mem_cons] at hx ⊢
    exact hx.imp (Or.imp id .inr) id
  have houter : x ∈ before ∨ x ∈ after → x ∈ before ++ rest ++ after := by
    intro hx
    simp only [List.mem_append]
    exact hx.imp .inl id
  simp only [List.mem_append] at hx
  cases h with
  | left => exact .inl (hkept (by simpa only [List.mem_append] using hx))
  | dropped =>
      rcases hx with (hx | hx) | hx
      · exact .inl (hkept (houter (.inl hx)))
      · exact absurd hx List.not_mem_nil
      · exact .inl (hkept (houter (.inr hx)))
  | new hnew _ =>
      rcases hx with (hx | hx) | hx
      · exact .inl (hkept (houter (.inl hx)))
      · exact .inr (List.mem_singleton.1 hx ▸ hnew)
      · exact .inl (hkept (houter (.inr hx)))

end

/-- What is drawn for the new template of a field, if anything: its id, or its key. -/
def Drawn (s : Store) (w patch : Value) (n : String) (x : Value) : Prop :=
  n = "id" ∧ x = text (s.host.supply.idAt s.host.supply.ids) ∨ n = "key" ∧ DrawsKey s w patch x

private theorem getOrNull_template {m id key : String} {x : Value}
    (h : (m, x) ∈ Factory.basicField id key FieldType.text.name (text "Item")) :
    (Value.ofFields (Factory.basicField id key FieldType.text.name (text "Item"))).getOrNull m =
      x := by
  rw [Value.getOrNull, Entries.get?_ofFields (by simp [Factory.basicField]) h, Option.getD_some]

private theorem gathered_of_templated {m id key : String} {x : Value}
    (howned : new.owned =
      [new, .ofFields (Factory.basicField id key FieldType.text.name (text "Item"))])
    (h : (m, x) ∈ Factory.basicField id key FieldType.text.name (text "Item")) :
    new.gathered m = [new.getOrNull m, x] := by
  rw [gathered, howned, List.map_cons, List.map_singleton, getOrNull_template h]

/-- The ids and keys of what a patched field owns are its own and those that it owned before, or none,
or one that is new. -/
theorem Reowned.gathered_eq (h : Reowned s w patch new) (hfresh : s.GivesFreshIds) {n : String}
    (hn : n = "id" ∨ n = "key") :
    ∃ rest, new.gathered n = new.getOrNull n :: rest ∧
      Renews (Drawn s w patch n) ((Schema.rootFields s.schema).flatMap (gathered n))
        (w.gathered n).tail rest := by
  cases h with
  | kept _ hkept => exact ⟨_, hkept n hn, .left⟩
  | alone _ howned => exact ⟨[], by rw [gathered, howned, List.map_singleton], .dropped⟩
  | @templated key hdrawn howned =>
      rcases hn with rfl | rfl
      · refine ⟨[text (s.host.supply.idAt s.host.supply.ids)], gathered_of_templated howned ?_,
          .new (.inl ⟨rfl, rfl⟩) ?_⟩
        · simp [Factory.basicField]
        · rw [← Schema.ids_forest]
          exact hfresh.unused _ (Nat.le_refl _)
      · refine ⟨[text key], gathered_of_templated howned ?_, .new (.inr ⟨rfl, hdrawn⟩) ?_⟩
        · simp [Factory.basicField]
        · obtain ⟨k, q, hk, heq⟩ := hdrawn.drawn
          rw [← Schema.keys_forest, heq]
          exact ((Factory.newKey_fresh _ _ _ (.refl _)).outcome hk).2 k rfl

/-- The key that is drawn is the key of the new template. -/
theorem Reowned.gathered_of_drawsKey (h : Reowned s w patch new) {key : Value}
    (hdraws : DrawsKey s w patch key) : new.gathered "key" = [new.getOrNull "key", key] := by
  cases h with
  | kept same =>
      rw [hdraws.asked, Option.getD_some] at same
      exact absurd same.symm hdraws.other
  | alone asked => exact absurd hdraws.asked asked
  | @templated k hdrawn howned =>
      obtain ⟨k', q', hk', rfl⟩ := hdraws.drawn
      obtain ⟨k'', q'', hk'', heq⟩ := hdrawn.drawn
      obtain rfl : k' = k'' := Except.ok.inj (Prod.mk.inj (hk'.symm.trans hk'')).1
      rw [← heq]
      exact gathered_of_templated howned (by simp [Factory.basicField])

private theorem gathered_self (n : String) (w : Value) :
    w.gathered n = w.getOrNull n :: (w.gathered n).tail := by
  rw [Value.gathered_eq, List.tail_cons]

/-- What a prepared edit puts in place, under the names of ids or of keys: the new field has its own
value, beside which stand values of other fields or what was drawn. -/
theorem Prepares.nodup_iff (hs : s.IsSound D) (hfresh : s.GivesFreshIds)
    (h : Prepares s id patch w new u) (hpatch : patch.IsProper)
    (hchildren : patch.get? "children" = none) (hof : patch.get? "of" = none) {n : String}
    (hn : n = "id" ∨ n = "key") :
    ∃ others : List Value, (((Forest.replace id new s.forest).flatMap (gathered n)).Nodup ↔
        new.getOrNull n ∉ others) ∧
      ∀ x ∈ others, x ∈ (Schema.rootFields s.schema).flatMap (gathered n) ∧ x ≠ w.getOrNull n ∨
        Drawn s w patch n x := by
  obtain ⟨hreowned, -⟩ := h.reowned hs hpatch hchildren hof
  obtain ⟨v, hv, hvid, heq, -, hw⟩ := hs.find? h.found
  obtain rfl := Field.ofValue_injective heq
  obtain ⟨rest, hgathered, hrest⟩ := hreowned.gathered_eq hfresh hn
  have hne : n ≠ "children" := by rcases hn with rfl | rfl <;> decide
  obtain ⟨before, after, hold, hnew⟩ : Forest.SwappedIn n w new _ _ :=
    Forest.swappedIn_replace hne (fun x hx => (hs.fields x hx).2) hs.schema.ids hv hvid
  have hnodup : ((Schema.rootFields s.schema).flatMap (gathered n)).Nodup := by
    rcases hn with rfl | rfl
    · exact hs.schema.ids
    · exact hs.schema.keys
  rw [gathered_self n w] at hold
  rw [hold] at hnodup hrest ⊢
  rw [Store.forest_eq, hnew, hgathered]
  exact ⟨_, hrest.nodup_iff hnodup, fun x hx => hrest.mem hnodup hx⟩

private theorem getD_revised (old said : Option Value) :
    (Patch.revised old said).getD .null = said.getD (old.getD .null) := by
  rcases said with _ | x
  · rfl
  · cases x <;> rfl

/-- A patched field has the id of the field, and the key that the patch asks for, if any. -/
theorem Prepares.names (hs : s.IsSound D) (h : Prepares s id patch w new u)
    (hpatch : patch.IsProper) : new.getOrNull "id" = w.getOrNull "id" ∧
      new.getOrNull "key" = (patch.get? "key").getD (w.getOrNull "key") := by
  obtain ⟨entries, rfl, made⟩ := h.made
  obtain ⟨v, -, -, heq, -, hw⟩ := hs.find? h.found
  obtain rfl := Field.ofValue_injective heq
  have happlied :=
    (((patched_patched hw.isMap h.accepted).outcome made).2 new rfl).applied hw hpatch
  have hkey : new.get? "key" =
      Patch.revised (w.get? "key") (Entries.get? entries (text "key")) := by
    cases happlied with
    | merged merged _ => exact merged.other "key" (by decide) (by simp)
    | reshaped merged _ _ reshaped =>
        exact (reshaped.other "key" (by decide)).trans (merged.other "key" (by decide) (by simp))
  refine ⟨?_, ?_⟩
  · rw [Value.getOrNull, happlied.id, Value.getOrNull]
  · rw [Value.getOrNull, hkey, getD_revised]
    rfl

/-- A field that becomes an array has become another field. -/
theorem Prepares.differ (hs : s.IsSound D) (h : Prepares s id patch w new u)
    (hpatch : patch.IsProper) {key : Value} (hdraws : DrawsKey s w patch key) :
    Difference.differ w new = true := by
  obtain ⟨entries, rfl, made⟩ := h.made
  obtain ⟨v, -, -, heq, hin, hw⟩ := hs.find? h.found
  obtain rfl := Field.ofValue_injective heq
  have hpatched := ((patched_patched hw.isMap h.accepted).outcome made).2 new rfl
  have hproper : new.IsProper :=
    ((patched_ends .anything w entries).outcome made).2 new rfl hin.isProper hpatch
  obtain ⟨old, hold⟩ := hw.exists_type
  have hget : w.get? "type" = some (text old.name) := Value.get?_of_getOrNull hold nofun
  have hnew : new.get? "type" = some (text FieldType.array.name) := by
    cases hpatched.applied hw hpatch with
    | merged merged same =>
        have htype := merged.other "type" (by decide) (by simp)
        rw [show Entries.get? entries (text "type") = _ from hdraws.asked] at htype
        exact htype
    | reshaped _ asked _ reshaped =>
        rw [← Value.get?_map, hdraws.asked] at asked
        rw [reshaped.kind, ← Option.some.inj asked]
  obtain ⟨es, rfl⟩ := Value.exists_eq_map hw.isMap
  refine Bool.of_not_eq_false fun hsame => hdraws.other ?_
  have hunseen := (Difference.differ_eq_false_iff (hw.undated hin.isProper)
    (h.fits.undated hproper)).1 hsame
  have htold := hunseen.get?_text (n := "type") (by decide +kernel) hget
  rw [hold, ← Option.some.inj (htold.symm.trans hnew)]

/-- Why the key that a patch asks for cannot be had: another field has it, or it is drawn for the
template of the array that the field becomes. -/
inductive KeyClash (s : Store) (id patch : Value) : Prop
  | taken {w v : Value} (found : s.find? id = some (ofValue w))
      (other : v ∈ (Schema.rootFields s.schema).flatMap owned)
      (ne : v.getOrNull "id" ≠ w.getOrNull "id")
      (asked : patch.get? "key" = some (v.getOrNull "key")) : KeyClash s id patch
  | drawn {w key : Value} (found : s.find? id = some (ofValue w)) (draws : DrawsKey s w patch key)
      (asked : patch.get? "key" = some key) : KeyClash s id patch

/-- An id never occurs twice in what a prepared edit puts in place. -/
theorem Prepares.nodup_ids (hs : s.IsSound D) (hfresh : s.GivesFreshIds)
    (h : Prepares s id patch w new u) (hpatch : patch.IsProper)
    (hchildren : patch.get? "children" = none) (hof : patch.get? "of" = none) :
    ((Forest.replace id new s.forest).flatMap (gathered "id")).Nodup := by
  obtain ⟨others, hiff, hothers⟩ := h.nodup_iff hs hfresh hpatch hchildren hof (.inl rfl)
  refine hiff.2 fun hmem => ?_
  rw [(h.names hs hpatch).1] at hmem
  rcases hothers _ hmem with ⟨-, hne⟩ | ⟨-, hdrawn⟩ | ⟨hkey, -⟩
  · exact hne rfl
  · obtain ⟨v, hv, -, heq, -⟩ := hs.find? h.found
    obtain rfl := Field.ofValue_injective heq
    obtain ⟨x, hx, hwx⟩ := List.mem_flatMap.1 hv
    refine hfresh.unused _ (Nat.le_refl s.host.supply.ids) ?_
    rw [← hdrawn, Store.forest, Schema.ids_forest]
    exact List.mem_flatMap.2 ⟨x, hx,
      (Value.map_nodes_sublist_gathered "id" x).subset (List.mem_map_of_mem hwx)⟩
  · exact absurd hkey (by decide)

/-- A key occurs twice only if the patch asks for it and cannot have it. -/
theorem Prepares.clash (hs : s.IsSound D) (hfresh : s.GivesFreshIds)
    (h : Prepares s id patch w new u) (hpatch : patch.IsProper)
    (hchildren : patch.get? "children" = none) (hof : patch.get? "of" = none)
    (htwice : ¬ ((Forest.replace id new s.forest).flatMap (gathered "key")).Nodup) :
    KeyClash s id patch := by
  obtain ⟨others, hiff, hothers⟩ := h.nodup_iff hs hfresh hpatch hchildren hof (.inr rfl)
  have hmem : new.getOrNull "key" ∈ others := not_not.1 (mt hiff.2 htwice)
  obtain ⟨v, hv, -, heq, -⟩ := hs.find? h.found
  obtain rfl := Field.ofValue_injective heq
  obtain ⟨x, hx, hwx⟩ := List.mem_flatMap.1 hv
  have hasked : new.getOrNull "key" ≠ w.getOrNull "key" →
      patch.get? "key" = some (new.getOrNull "key") := by
    intro hne
    rw [(h.names hs hpatch).2] at hne ⊢
    cases hsaid : patch.get? "key" with
    | none =>
        rw [hsaid] at hne
        exact absurd rfl hne
    | some key => rfl
  rcases hothers _ hmem with ⟨hold, hne⟩ | ⟨hid, -⟩ | ⟨-, hdraws⟩
  · obtain ⟨y, hy, hkey⟩ := List.mem_flatMap.1 hold
    obtain ⟨v, hvy, hvkey⟩ := List.mem_map.1 hkey
    have hvmem : v ∈ (Schema.rootFields s.schema).flatMap owned := List.mem_flatMap.2 ⟨y, hy, hvy⟩
    refine .taken h.found hvmem (fun hsame => hne ?_) (hvkey ▸ hasked hne)
    -- Ids are all different, so the other field would be the field itself.
    have hwmem : w ∈ (Schema.rootFields s.schema).flatMap owned :=
      List.mem_flatMap.2 ⟨x, hx, (Value.nodes_sublist_owned x).subset hwx⟩
    have hids : (((Schema.rootFields s.schema).flatMap owned).map
        fun v => v.getOrNull "id").Nodup := by
      rw [List.map_flatMap]
      exact hs.schema.ids
    rw [← hvkey, List.inj_on_of_nodup_map hids hvmem hwmem hsame]
  · exact absurd hid (by decide)
  · refine .drawn h.found hdraws (hasked fun hsame => ?_)
    obtain ⟨k, q, hk, heq⟩ := hdraws.drawn
    refine ((Factory.newKey_fresh _ _ _ (.refl _)).outcome hk).2 k rfl ?_
    rw [← heq, hsame, Store.keys, Store.forest, Schema.keys_forest]
    exact List.mem_flatMap.2 ⟨x, hx,
      (Value.map_nodes_sublist_gathered "key" x).subset (List.mem_map_of_mem hwx)⟩

/-- So a prepared edit is refused for nothing but a key that occurs twice. -/
theorem Prepares.codes (hs : s.IsSound D) (hfresh : s.GivesFreshIds)
    (h : Prepares s id patch w new u) (hpatch : patch.IsProper)
    (hchildren : patch.get? "children" = none) (hof : patch.get? "of" = none)
    (hdiffers : Difference.differ w new = true) :
    (updateField id patch).Ends s fun r _ =>
      (∀ o, r = .ok o → o.code ≠ .duplicateId ∧ (o.code = .duplicateKey →
        ¬ ((Forest.replace id new s.forest).flatMap (gathered "key")).Nodup)) ∧
      (¬ ((Forest.replace id new s.forest).flatMap (gathered "key")).Nodup →
        ∃ o, r = .ok o ∧ o.code = .duplicateKey) := by
  have hfits : ∀ x ∈ Forest.replace id new s.forest, x.Fits := by
    rw [Store.forest_eq]
    exact Forest.replace_inherited Value.isInherited_fits h.fits fun x hx => (hs.fields x hx).2
  rw [ends_iff, h.outcome hdiffers]
  exact commitChecked_codes hfits (h.nodup_ids hs hfresh hpatch hchildren hof) _ _

/-- A key that is asked for and drawn occurs twice. -/
theorem Prepares.twice (hs : s.IsSound D) (h : Prepares s id patch w new u)
    (hpatch : patch.IsProper) (hchildren : patch.get? "children" = none)
    (hof : patch.get? "of" = none) {key : Value} (hdraws : DrawsKey s w patch key)
    (hasked : patch.get? "key" = some key) :
    ¬ ((Forest.replace id new s.forest).flatMap (gathered "key")).Nodup := by
  intro hnodup
  obtain ⟨hreowned, -⟩ := h.reowned hs hpatch hchildren hof
  obtain ⟨v, hv, hvid, heq, -⟩ := hs.find? h.found
  obtain rfl := Field.ofValue_injective heq
  obtain ⟨before, after, -, hnew⟩ : Forest.SwappedIn "key" w new _ _ :=
    Forest.swappedIn_replace (by decide) (fun x hx => (hs.fields x hx).2) hs.schema.ids hv hvid
  have hkey : new.getOrNull "key" = key := by
    rw [(h.names hs hpatch).2, hasked, Option.getD_some]
  rw [Store.forest_eq, hnew, hreowned.gathered_of_drawsKey hdraws, hkey] at hnodup
  have htwice : [key, key].Nodup := (hnodup.of_append_left).of_append_right
  simp at htwice

theorem updateField_clashes (hs : s.IsSound D) (hfresh : s.GivesFreshIds) (hpatch : patch.IsProper)
    (hchildren : patch.get? "children" = none) (hof : patch.get? "of" = none) :
    (updateField id patch).Ends s fun r _ =>
      (∀ o, r = .ok o → o.code ≠ .duplicateId ∧ (o.code = .duplicateKey → KeyClash s id patch)) ∧
      ∀ w new u key, Prepares s id patch w new u → DrawsKey s w patch key →
        patch.get? "key" = some key → ∃ o, r = .ok o ∧ o.code = .duplicateKey := by
  refine ends_of_outcome fun r t ran => ⟨fun o ho => ?_, fun w new u key h hdraws hasked => ?_⟩
  · have hprepared := (updateField_prepares hs).outcome ran o ho
    refine ⟨fun hcode => ?_, fun hcode => ?_⟩
    · obtain ⟨w, new, u, h, hdiffers⟩ := hprepared (.inl hcode)
      have hcodes := (h.codes hs hfresh hpatch hchildren hof hdiffers).outcome ran
      exact (hcodes.1 o ho).1 hcode
    · obtain ⟨w, new, u, h, hdiffers⟩ := hprepared (.inr hcode)
      have hcodes := (h.codes hs hfresh hpatch hchildren hof hdiffers).outcome ran
      exact h.clash hs hfresh hpatch hchildren hof ((hcodes.1 o ho).2 hcode)
  · have hdiffers := h.differ hs hpatch hdraws
    have hcodes := (h.codes hs hfresh hpatch hchildren hof hdiffers).outcome ran
    exact hcodes.2 (h.twice hs hpatch hchildren hof hdraws hasked)

end Editing

/-- In every reachable store whose ids are fresh, an edit of a field that does not say what the field
owns is never refused for an id, and for a key only if the patch asks for the key of another field or
for the one that is drawn for a new template. In the last case it is refused, although no field of the
tree has the key, if the patch is fine in all else. -/
theorem Store.Reachable.updateField_refused_for_key {s : Store} {capacity id patch : Value}
    (h : s.Reachable (fun _ c => c.IsProper) capacity) (hfresh : s.GivesFreshIds)
    (hpatch : patch.IsProper) (hchildren : patch.get? "children" = none)
    (hof : patch.get? "of" = none) :
    (Command.updateField id patch).run.Ends s fun r _ =>
      (∀ o, r = .ok (.outcome o) → o.code ≠ .duplicateId ∧
        (o.code = .duplicateKey → Editing.KeyClash s id patch)) ∧
      ∀ w new u key, Editing.Prepares s id patch w new u → Editing.DrawsKey s w patch key →
        patch.get? "key" = some key → ∃ o, r = .ok (.outcome o) ∧ o.code = .duplicateKey := by
  have hs := h.isSound Value.Domain.isClosed_anything fun s c hc => hc.brings s
  refine (ends_map _).2
    ((Editing.updateField_clashes hs hfresh hpatch hchildren hof).mono fun r t hclashes => ?_)
  refine ⟨fun o ho => ?_, fun w new u key hprepares hdraws hasked => ?_⟩
  · obtain ⟨o', ho', heq⟩ := Result.map_eq_ok.1 ho
    obtain rfl := Reply.outcome.inj heq
    exact hclashes.1 o' ho'
  · obtain ⟨o, rfl, hcode⟩ := hclashes.2 w new u key hprepares hdraws hasked
    exact ⟨o, rfl, hcode⟩

/-- Whether the reply to an edit is an outcome with a code. -/
def Reply.hasCode (code : ResultCode) : Except Failure Reply → Bool
  | .ok (.outcome o) => o.code = code
  | _ => false

/-- A text field is to become an array with a key that no field has, and is refused because the same key
is drawn for the template. -/
theorem Store.free_key_refused :
    let s := Store.bare.after [.addField (.textField "a")]
    let patch := Value.ofFields [("key", text "item_aaaa"), ("type", text "array")]
    s.Reachable (fun _ c => c.IsProper) (.int 2) ∧ s.GivesFreshIds ∧ patch.IsProper ∧
      (s.keys.all fun key => key.among [text "a"]) = true ∧
      ∃ o t, (Command.updateField (text "a") patch).run.outcome s = (.ok (.outcome o), t) ∧
        o.code = .duplicateKey ∧ Editing.KeyClash s (text "a") patch := by
  intro s patch
  have hreachable : s.Reachable (fun _ c => c.IsProper) (.int 2) := by
    refine (Store.Reachable.bare (fun _ => .scalar (v := .null) rfl trivial) none).after ?_
    exact List.forall_mem_singleton.2 fun _ => Value.textField_isIn "a"
  have hfresh : s.GivesFreshIds :=
    Store.givesFreshIds_after ["a"] (by decide) (by decide +kernel)
  have hpatch : patch.IsProper := .ofFields (by simp)
    (by simpa only [List.forall_mem_cons] using ⟨.text _, .text _, List.forall_mem_nil _⟩)
  have hcode : Reply.hasCode .duplicateKey
      ((Command.updateField (text "a") patch).run.outcome s).1 = true := by decide +kernel
  have hclashes : (Command.updateField (text "a") patch).run.Ends s _ :=
    Store.Reachable.updateField_refused_for_key hreachable hfresh hpatch (by decide +kernel)
      (by decide +kernel)
  rcases ran : (Command.updateField (text "a") patch).run.outcome s with ⟨r, t⟩
  rw [ran] at hcode
  obtain ⟨o, rfl, hduplicate⟩ : ∃ o, r = .ok (.outcome o) ∧ o.code = .duplicateKey := by
    rcases r with e | o | v
    · cases hcode
    · exact ⟨o, rfl, of_decide_eq_true hcode⟩
    · cases hcode
  exact ⟨hreachable, hfresh, hpatch, by decide +kernel, o, t, rfl, hduplicate,
    ((hclashes.outcome ran).1 o rfl).2 hduplicate⟩

end FormDesigner
