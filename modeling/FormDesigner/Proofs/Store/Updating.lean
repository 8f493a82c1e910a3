import FormDesigner.Proofs.Field.Replacing
import FormDesigner.Proofs.Store.Committing
import FormDesigner.Proofs.Store.Patching

/-!
# Changing the attributes of a field

A patch that names neither the id nor the type of a field is merged into it. If the result does not
fit, the edit is refused; if it is no different from the field, nothing happens; otherwise it takes
the place of the field, and is found there.
-/

namespace FormDesigner

open Work
open Value (gathered nodes)
open FormDesigner.Field (ofValue)

namespace Editing

variable {D : Value.Domain} {s t : Store} {id w : Value} {fields : List (String × Value)}

/-- A patch that names neither the id nor the type of a field. -/
structure IsPlainPatch (fields : List (String × Value)) : Prop where
  id : "id" ∉ fields.map Prod.fst
  type : "type" ∉ fields.map Prod.fst

theorem get?_ofFields_of_notMem {n : String} (h : n ∉ fields.map Prod.fst) :
    (Value.ofFields fields).get? n = none := by
  rw [Value.ofFields, Value.get?_map, Entries.get?_eq_none_iff, Entries.names_ofFields]
  exact h

theorem isSome_ofValue?_type (hw : w.Fits) :
    (FieldType.ofValue? (w.getOrNull "type")).isSome = true := by
  cases hw with
  | @intro es type kind =>
      rw [Value.getOrNull, Value.get?_map, kind]
      exact Option.isSome_of_eq_some (FieldType.ofName?_eq_some_iff.2 rfl)

theorem refusedPatch?_eq_none (hw : w.Fits) (hfields : IsPlainPatch fields) :
    refusedPatch? id w (.ofFields fields) = .ok none := by
  have htype : ¬ (FieldType.ofValue? (w.getOrNull "type")).isNone = true := by
    rw [Option.isNone_iff_eq_none, ← Option.not_isSome_iff_eq_none, not_not]
    exact isSome_ofValue?_type hw
  rw [refusedPatch?, get?_ofFields_of_notMem hfields.id, get?_ofFields_of_notMem hfields.type]
  dsimp only
  rw [Option.getD_none, if_neg htype]
  rfl

theorem patched_ends_of_isPlain (hw : w.Fits) (hfields : IsPlainPatch fields) :
    (patched w (fields.map fun f => (.text f.1, f.2))).Ends s fun r t =>
      r = .ok (Patch.mergeFields w fields) ∧ t = s := by
  have hnone : Entries.get? (fields.map fun f => (Value.text f.1, f.2)) (.text "type") = none :=
    get?_ofFields_of_notMem hfields.type
  obtain ⟨type, htype⟩ : ∃ n, w.getOrNull "type" = .text n := by
    cases hw with
    | @intro es type kind =>
        rw [Value.getOrNull, Value.get?_map, kind]
        exact ⟨_, rfl⟩
  have hsame : (w.getOrNull "type").equals (w.getOrNull "type") = true := by
    rw [htype]
    simp [Value.equals]
  unfold patched
  dsimp only
  rw [hnone, Option.getD_none, if_pos hsame, Patch.merge_ofFields]
  exact ⟨rfl, rfl⟩

/-- What the edit leaves is what its three ends leave. -/
theorem updateField_ends_of {Q : Except Failure Outcome → Store → Prop} (hw : w.Fits)
    (hfound : s.find? id = some (ofValue w)) (hfields : IsPlainPatch fields)
    (hmalformed : ∀ o, malformed? (Patch.mergeFields w fields) = some o → Q (.ok o) s)
    (hsame : (Patch.mergeFields w fields).Fits →
      Difference.differ w (Patch.mergeFields w fields) = false →
        Q (.ok (.unchanged "Patch does not change the field" .ok id)) s)
    (hdiffer : (Patch.mergeFields w fields).Fits →
      Difference.differ w (Patch.mergeFields w fields) = true →
        (commitChecked (Forest.replace id (Patch.mergeFields w fields) s.forest) "update_field"
          id).Ends s Q) :
    (updateField id (.ofFields fields)).Ends s Q := by
  have hmade := patched_ends_of_isPlain (s := s) hw hfields
  have attempts : Attempts s id (.ofFields fields) (ofValue w)
      (.ok (Patch.mergeFields w fields)) s := by
    refine ⟨hfound, ?_, _, rfl, ?_⟩
    · rw [Field.value_ofValue]
      exact refusedPatch?_eq_none hw hfields
    · rw [Field.value_ofValue]
      exact Prod.ext hmade.1 hmade.2
  rw [attempts.ends, Field.value_ofValue]
  cases hshape : malformed? (Patch.mergeFields w fields) with
  | some o => exact hmalformed o hshape
  | none =>
      have hfits := malformed?_eq_none_iff.1 hshape
      dsimp only
      split
      · next h => exact hdiffer hfits h
      · next h => exact hsame hfits (Bool.eq_false_iff.2 h)

/-! ### What an edit that went well leaves -/

/-- An edit of a field goes well: the patch is not refused, what it makes of the field fits, and this
takes the place of the field unless no change is found between the two. -/
structure Updates (s : Store) (id v : Value) (entries : Entries) (new : Value) (u : Store)
    (o : Outcome) (t : Store) : Prop where
  accepted : refusedPatch? id v (.map entries) = .ok none
  made : (patched v entries).outcome s = (.ok new, u)
  fits : new.Fits
  stored : Difference.differ v new = true →
    o = .success "update_field" id ∧ u.Commits (Forest.replace id new s.forest) t
  dropped : Difference.differ v new = false →
    o = .unchanged "Patch does not change the field" .ok id ∧ t = u

theorem updateField_updates (id patch : Value) :
    (updateField id patch).Ends s fun r t => ∀ o, r = .ok o → o.ok = true →
      ∃ entries f new u, patch = .map entries ∧ s.find? id = some f ∧
        Updates s id f.value entries new u o t := by
  refine (updateField_cases id patch).mono fun r t h o ho hok => ?_
  have refused : ¬ o.IsRefusal := fun h => by
    rw [h.ok] at hok
    cases hok
  cases h with
  | unfit =>
      obtain rfl := Except.ok.inj ho
      cases hok
  | missing => exact absurd (isRefusal_notFound ho) refused
  | failed => cases ho
  | refused _ h => exact absurd (isRefusal_refusedPatch? (Except.ok.inj ho ▸ h)) refused
  | broken => cases ho
  | malformed _ shape => exact absurd (isRefusal_malformed? (Except.ok.inj ho ▸ shape)) refused
  | @dropped f new _ attempts shape same =>
      obtain ⟨entries, rfl, made⟩ := attempts.made
      refine ⟨entries, f, new, t, rfl, attempts.found, attempts.accepted, made,
        malformed?_eq_none_iff.1 shape, fun differs => ?_, fun _ => ⟨(Except.ok.inj ho).symm, rfl⟩⟩
      rw [same] at differs
      cases differs
  | @stored f new u _ _ attempts shape differs committed =>
      obtain ⟨entries, rfl, made⟩ := attempts.made
      refine ⟨entries, f, new, u, rfl, attempts.found, attempts.accepted, made,
        malformed?_eq_none_iff.1 shape,
        fun _ => (commitChecked_leaves _ _ _).outcome committed o ho hok, fun same => ?_⟩
      rw [same] at differs
      cases differs

theorem updates_of_run {patch : Value} {o : Outcome}
    (ran : (Command.updateField id patch).run.outcome s = (.ok (.outcome o), t)) (hok : o.ok = true) :
    ∃ entries f new u, patch = .map entries ∧ s.find? id = some f ∧
      Updates s id f.value entries new u o t := by
  have hupdates : (Command.updateField id patch).run.Ends s fun r t => ∀ o, r = .ok (.outcome o) →
      o.ok = true → ∃ entries f new u, patch = .map entries ∧ s.find? id = some f ∧
        Updates s id f.value entries new u o t := by
    refine (ends_map _).2 ((updateField_updates id patch).mono ?_)
    rintro (e | o) t hupdates _ ⟨⟩ hok
    exact hupdates o rfl hok
  exact hupdates.outcome ran o rfl hok

/-- A field that was put in the place of another one is found there, under the same id. -/
theorem find?_of_commits (hs : s.IsSound D) {new : Value}
    (hfound : s.find? id = some (ofValue w)) (hid : new.getOrNull "id" = w.getOrNull "id")
    {u : Store} (hu : u.schema = s.schema)
    (hcommits : u.Commits (Forest.replace id new s.forest) t) : t.find? id = some (ofValue new) := by
  rw [Store.find?, Store.forest_eq] at hfound
  rw [Store.find?, Store.forest_eq, hs.rootFields_eq (hu ▸ hcommits.schema), Store.forest_eq]
  refine Forest.find?_replace ?_ hfound
  obtain ⟨v, -, hvid, heq⟩ := Forest.find?_eq_some hfound
  obtain rfl := Field.ofValue_injective heq
  rwa [Forest.hasId, hid]

/-- After an edit that went well, the field is as it was merged, or was so before. -/
theorem updateField_leaves (hs : s.IsSound D) (hw : w.Fits)
    (hfound : s.find? id = some (ofValue w)) (hfields : IsPlainPatch fields) :
    (updateField id (.ofFields fields)).Ends s fun r t => ∀ o, r = .ok o → o.ok = true →
      t.find? id = some (ofValue (Patch.mergeFields w fields)) ∨
        t = s ∧ Difference.differ w (Patch.mergeFields w fields) = false := by
  have hid : (Patch.mergeFields w fields).getOrNull "id" = w.getOrNull "id" := by
    rw [Value.getOrNull, Patch.get?_mergeFields_of_notMem hfields.id, Value.getOrNull]
  refine updateField_ends_of hw hfound hfields ?_ ?_ fun _ _ => ?_
  · rintro o ho _ ⟨⟩ hok
    rw [(isRefusal_malformed? ho).ok] at hok
    cases hok
  · exact fun _ hsame _ _ _ => .inr ⟨rfl, hsame⟩
  · refine (commitChecked_leaves _ _ _).mono fun r t hleaves o ho hok => .inl ?_
    exact find?_of_commits hs hfound hid rfl (hleaves o ho hok).2

/-! ### Edits that go well -/

/-- A field that has the ids and keys of another can take its place. -/
theorem areSound_replace (hs : s.IsSound D) {new : Value}
    (hfound : s.find? id = some (ofValue w)) (hnew : new.IsIn D ∧ new.Fits)
    (hgathered : ∀ n, n = "id" ∨ n = "key" → new.gathered n = w.gathered n) :
    Command.AreSound D (Forest.replace id new s.forest) := by
  obtain ⟨u, hu, huid, heq, -, -⟩ := hs.find? hfound
  obtain rfl := Field.ofValue_injective heq
  have hone : ∀ v ∈ (Schema.rootFields s.schema).flatMap nodes, Forest.hasId id v = true → v = w :=
    fun v hv hid => Forest.eq_of_hasId (fun x hx => (hs.fields x hx).2) hs.schema.ids hv hu hid huid
  have hkept : ∀ n, n = "id" ∨ n = "key" → (Forest.replace id new s.forest).flatMap (gathered n) =
      (Schema.rootFields s.schema).flatMap (gathered n) := by
    intro n hn
    rw [Store.forest_eq]
    refine Forest.gathered_replace (by rcases hn with rfl | rfl <;> decide) fun v hv hid => ?_
    rw [hone v hv hid, hgathered n hn]
  refine ⟨?_, ?_, ?_⟩
  · rw [Store.forest_eq]
    exact Forest.replace_inherited (Store.isInherited_sound D) hnew hs.fields
  · rw [hkept "id" (.inl rfl)]
    exact hs.schema.ids
  · rw [hkept "key" (.inr rfl)]
    exact hs.schema.keys

/-- A patch that leaves the field fitting, with its key and what it owns, can be applied. -/
theorem updateField_succeeds (hs : s.IsSound .json) (hsave : s.CanSave)
    (hfound : s.find? id = some (ofValue w)) (hfields : IsPlainPatch fields) (hjson : ∀ f ∈ fields, f.2.IsJson)
    (hnames : (fields.map Prod.fst).Nodup) (hfits : (Patch.mergeFields w fields).Fits)
    (hkey : (Patch.mergeFields w fields).getOrNull "key" = w.getOrNull "key")
    (howned : "children" ∉ fields.map Prod.fst ∧ "of" ∉ fields.map Prod.fst) :
    (updateField id (.ofFields fields)).Ends s fun r _ => ∃ o, r = .ok o ∧ o.ok = true := by
  obtain ⟨u, -, -, heq, hw, hwfits⟩ := hs.find? hfound
  obtain rfl := Field.ofValue_injective heq
  refine updateField_ends_of hwfits hfound hfields ?_ ?_ fun _ _ => ?_
  · intro o ho
    rw [malformed?_eq_none_iff.2 hfits] at ho
    cases ho
  · exact fun _ _ => ⟨_, rfl, rfl⟩
  · have hmerged : (Patch.mergeFields w fields).IsJson := by
      rw [← Patch.merge_ofFields]
      exact Patch.merge_isIn hw (Value.IsIn.ofFields hnames hjson)
    have hkept : ∀ {n}, n ∉ fields.map Prod.fst →
        (Patch.mergeFields w fields).getOrNull n = w.getOrNull n := fun hn => by
      rw [Value.getOrNull, Patch.get?_mergeFields_of_notMem hn, Value.getOrNull]
    have hsound := areSound_replace hs hfound ⟨hmerged, hfits⟩ fun n hn => by
      refine Value.gathered_congr ?_ ?_ ?_
      · exact Value.childValues_congr Patch.isMap_mergeFields (hkept hfields.type) (hkept howned.1)
      · exact Value.templateValue?_congr Patch.isMap_mergeFields (hkept hfields.type)
          (Patch.get?_mergeFields_of_notMem howned.2)
      · rcases hn with rfl | rfl
        · exact hkept hfields.id
        · exact hkey
    refine (commitChecked_committed hs hsound _ _).mono fun r t h => ?_
    exact ⟨_, h.answer hsave, rfl⟩

end Editing

end FormDesigner
