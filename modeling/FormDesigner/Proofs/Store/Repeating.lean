import FormDesigner.Proofs.Store.Applying
import FormDesigner.Proofs.Value.Keyed

/-!
# Patches that are applied twice

A patch that has been merged into a field says nothing that the field does not say already, so merging
it once more changes nothing, and the field that got another type on the way has that type. The second
edit finds no change and leaves the store alone. Entries under keys that are no texts are followed for
themselves: no field that fits has them, so a patch that was applied has left none behind.
-/

namespace FormDesigner

open Work
open Value (text)
open Entries (strays IsKeyed)
open FormDesigner.Field (ofValue)
open Difference (Unseen)

namespace Patch

variable {es fs rules patch : Entries} {v w u : Value} {n : String}

/-! ### Steps -/

theorem revised_revised (old said : Option Value) :
    revised (revised old said) said = revised old said := by
  unfold revised
  split
  · rfl
  · rfl
  · rfl

theorem mergeRule_eq_self (hes : (Entries.names es).Nodup)
    (h : Entries.get? es (text n) = revised (Entries.get? es (text n)) (some w)) :
    mergeRule es (text n) w = es := by
  unfold mergeRule
  split
  · next hnull =>
      obtain rfl : w = .null := by cases w <;> first | rfl | cases hnull
      exact Entries.erase_eq_self h
  · next hvalue =>
      refine Entries.insert_eq_self hes ?_
      rwa [revised_some] at h
      rintro rfl
      exact hvalue rfl

theorem isKeyed_mergeRule : IsKeyed fun es e => mergeRule es e.1 e.2 := by
  intro P hP es e
  dsimp only
  unfold mergeRule
  split
  · exact Entries.keyed_erase hP
  · exact Entries.keyed_insert hP

/-- A step of a patch, on the entries of a field. -/
def mergeEntry (es : Entries) (e : Value × Value) : Entries :=
  (mergeAttribute (.map es) e.1 e.2).entriesOf

theorem merge_map (es patch : Entries) : merge (.map es) patch = .map (patch.foldl mergeEntry es) := by
  induction patch generalizing es with
  | nil => rfl
  | cons e patch ih =>
      have hstep : mergeAttribute (.map es) e.1 e.2 = .map (mergeEntry es e) := by
        obtain ⟨fs, hfs⟩ := Value.exists_eq_map
          (isMap_mergeAttribute (v := .map es) (k := e.1) (w := e.2))
        rw [mergeEntry, hfs]
        rfl
      rw [merge, List.foldl_cons, hstep, ← merge, ih, List.foldl_cons]

theorem mergeEntry_id : mergeEntry es (text "id", w) = es := by
  unfold mergeEntry mergeAttribute
  rw [if_pos (Value.same_text_iff.2 rfl)]
  rfl

theorem mergeEntry_rules : mergeEntry es (text "validation", .map rules) =
    let rs := rules.foldl (fun rs e => mergeRule rs e.1 e.2) (rulesOf (.map es))
    if !rs.isEmpty || (Value.map es).has "validation" then
      Entries.insert es (text "validation") (.map rs) else es := by
  rw [mergeEntry, mergeAttribute_validation, mergeRules]
  exact apply_ite Value.entriesOf _ _ _

theorem isKeyed_mergeEntry : IsKeyed mergeEntry := by
  intro P hP es e
  obtain ⟨k, w⟩ := e
  by_cases hid : k = text "id"
  · rw [hid, mergeEntry_id, mergeEntry_id, ite_self]
  by_cases hrules : k = text "validation" ∧ w.isMap = true
  · obtain ⟨rfl, hmap⟩ := hrules
    obtain ⟨rules, rfl⟩ := Value.exists_eq_map hmap
    rw [mergeEntry_rules, mergeEntry_rules]
    dsimp only
    by_cases hPk : P (text "validation") = true
    · have hget : (Value.map (es.keyed P)).get? "validation" = (Value.map es).get? "validation" :=
        Entries.get?_keyed hP hPk
      rw [if_pos hPk, rulesOf, rulesOf, Value.getOrNull, Value.getOrNull, Value.has, Value.has, hget]
      split
      · rw [Entries.keyed_insert hP, if_pos hPk]
      · rfl
    · rw [if_neg hPk]
      split
      · rw [Entries.keyed_insert hP, if_neg hPk]
      · rfl
  · have hmerged : ∀ es, mergeEntry es (k, w) = mergeRule es k w := fun es => by
      rw [mergeEntry, mergeAttribute_map hid fun hk =>
        Bool.eq_false_iff.2 fun hmap => hrules ⟨hk, hmap⟩]
      rfl
    rw [hmerged, hmerged]
    exact isKeyed_mergeRule P hP es (k, w)

/-! ### Merging again -/

theorem strays_of_textKeyed (hv : v.IsIn .textKeyed) : strays v.entriesOf = [] := by
  cases v with
  | map es => exact Entries.strays_eq_nil_iff.2 (Value.IsIn.map_iff.1 hv).2.1
  | _ => rfl

/-- Rules that were merged before are not changed by merging the same rules. -/
theorem foldl_mergeRule_eq_self (hrules : (Entries.names rules).Nodup) (hes : strays es = [])
    (hfs : (Entries.names fs).Nodup) (hstrays : strays fs = [])
    (h : rules.foldl (fun rs e => mergeRule rs e.1 e.2) es = fs) :
    rules.foldl (fun rs e => mergeRule rs e.1 e.2) fs = fs := by
  refine isKeyed_mergeRule.foldl_eq_self hes (h.symm ▸ hstrays) hstrays fun e he => ?_
  obtain ⟨k, w⟩ := e
  obtain ⟨hmem, htext⟩ := List.mem_filter.1 he
  obtain ⟨n, rfl⟩ := Value.isText_iff.1 htext
  refine mergeRule_eq_self hfs ?_
  have hmerged := rulesMerged_foldl hrules es n
  rw [h, (Entries.get?_eq_some_iff hrules).2 hmem] at hmerged
  rw [hmerged, revised_revised]

/-- A field with the rules that a patch has made of others stays as it is when the rules of the patch
are merged into its own. -/
private theorem mergeEntry_rules_eq_self (hv : v.IsIn .textKeyed)
    (hfs : (Value.map fs).IsIn .textKeyed) (hrules : (Value.map rules).IsProper)
    (hget : (Value.map fs).get? "validation" =
      let rs := rules.foldl (fun rs e => mergeRule rs e.1 e.2) (rulesOf v)
      if rs.isEmpty && !v.has "validation" then none else some (.map rs)) :
    mergeEntry fs (text "validation", .map rules) = fs := by
  dsimp only at hget
  have hmerged : rulesOf (.map fs) = rules.foldl (fun rs e => mergeRule rs e.1 e.2) (rulesOf v) := by
    rw [rulesOf, Value.getOrNull, hget]
    split
    · next hnone => exact (List.isEmpty_iff.1 (Bool.and_eq_true_iff.1 hnone).1).symm
    · rfl
  have htextKeyed : ((Value.map fs).getOrNull "validation").IsIn .textKeyed := hfs.getOrNull trivial
  have hnodup : (Entries.names (rulesOf (.map fs))).Nodup := by
    unfold rulesOf
    generalize (Value.map fs).getOrNull "validation" = rs at htextKeyed
    cases rs with
    | map => exact htextKeyed.names_nodup
    | _ => exact List.nodup_nil
  have hagain := foldl_mergeRule_eq_self hrules.names_nodup
    (strays_of_textKeyed (hv.getOrNull trivial)) hnodup (strays_of_textKeyed htextKeyed) hmerged.symm
  rw [mergeEntry_rules]
  dsimp only
  rw [hagain]
  rw [← hmerged] at hget
  split
  · next hkept =>
      refine Entries.insert_eq_self hfs.names_nodup (hget.trans (if_neg fun hnone => ?_))
      rw [if_pos hnone] at hget
      rw [Value.has, hget, (Bool.and_eq_true_iff.1 hnone).1] at hkept
      cases hkept
  · rfl

/-- A field that has what a patch makes of another one under each name of the patch stays as it is when
the patch is merged into it. -/
theorem merge_eq_self (hv : v.IsIn .textKeyed) (hvmap : v.isMap = true) (hw : w.IsIn .textKeyed)
    (hwmap : w.isMap = true) (hpatch : (Value.map patch).IsProper)
    (hstrays : strays (merge v patch).entriesOf = [])
    (hsame : ∀ n, n ∈ Entries.names patch → w.get? n = (merge v patch).get? n) :
    merge w patch = w := by
  have hmerged := merge_merged hvmap hpatch
  obtain ⟨es, rfl⟩ := Value.exists_eq_map hvmap
  obtain ⟨fs, rfl⟩ := Value.exists_eq_map hwmap
  rw [merge_map] at hstrays
  rw [merge_map]
  refine congrArg Value.map (isKeyed_mergeEntry.foldl_eq_self (strays_of_textKeyed hv) hstrays
    (strays_of_textKeyed hw) fun e he => ?_)
  obtain ⟨k, x⟩ := e
  obtain ⟨hmem, htext⟩ := List.mem_filter.1 he
  obtain ⟨n, rfl⟩ := Value.isText_iff.1 htext
  have hsaid := (Entries.get?_eq_some_iff hpatch.names_nodup).2 hmem
  have hget := hsame n (Entries.mem_names_iff.2 ⟨x, hmem⟩)
  by_cases hid : n = "id"
  · subst hid
    exact mergeEntry_id
  by_cases hrules : n = "validation" ∧ x.isMap = true
  · obtain ⟨rfl, hx⟩ := hrules
    obtain ⟨rules, rfl⟩ := Value.exists_eq_map hx
    rw [get?_merge_rules rfl hpatch.names_nodup hsaid] at hget
    exact mergeEntry_rules_eq_self hv hw (hpatch.of_mem hmem) hget
  · have hplain : n = "validation" → x.isMap = false := fun hn =>
      Bool.eq_false_iff.2 fun hx => hrules ⟨hn, hx⟩
    rw [hmerged.other n hid fun hn rules hr => hrules ⟨hn, by
      rw [Option.some.inj (hsaid.symm.trans hr)]; rfl⟩, hsaid] at hget
    rw [mergeEntry, mergeAttribute_of_ne hid hplain]
    refine mergeRule_eq_self hw.names_nodup ?_
    rw [show Entries.get? fs (text n) = _ from hget, revised_revised]

end Patch

/-! ### Entries under other keys -/

theorem Value.strays_put (v : Value) (n : String) (w : Value) :
    strays (v.put n w).entriesOf = strays v.entriesOf := by
  cases v with
  | map es => exact (Entries.keyed_insert Value.isKind_isText.not).trans (if_neg Bool.false_ne_true)
  | _ => rfl

theorem Value.strays_drop (v : Value) (n : String) :
    strays (v.drop n).entriesOf = strays v.entriesOf := by
  cases v with
  | map es => exact (Entries.keyed_erase Value.isKind_isText.not).trans (if_neg Bool.false_ne_true)
  | _ => rfl

namespace Factory

theorem strays_withLists (t : FieldType) (v : Value) :
    strays (withLists t v).entriesOf = strays v.entriesOf := by
  have hlist : ∀ (needed : Prop) [Decidable needed] (n : String) (new v : Value),
      strays (withList needed n new v).entriesOf = strays v.entriesOf := by
    intro needed _ n new v
    unfold withList
    split
    · split
      · rfl
      · exact v.strays_put n new
    · exact v.strays_drop n
  rw [withLists, hlist, hlist, Value.strays_put]

/-- Another type takes nothing away that is under no text, and brings nothing there. -/
theorem retype_strays {s : Supply} (v type keys : Value) :
    Keeps s.Follows (retype v type keys) fun w => strays w.entriesOf = strays v.entriesOf := by
  unfold retype
  split
  · exact (keeps_ofExcept fun _ _ => trivial).bind (P := fun _ => True) fun _ _ => keeps_throw
  · next t _ =>
      split
      · rw [reshape_eq]
        split
        · split
          · exact keeps_pure (strays_withLists t v)
          · refine (createText_eq _ _).bind fun template _ => ?_
            refine (keeps_ofExcept (P := fun _ => True) fun _ _ => trivial).bind fun taken _ => ?_
            refine (newKey_fresh _ _).bind fun key _ => keeps_pure ?_
            rw [Value.strays_put, strays_withLists]
        · exact keeps_pure (by rw [Value.strays_drop, strays_withLists])
      · exact keeps_throw

end Factory

namespace Editing

variable {s t : Store} {id v w : Value} {entries : Entries}

theorem patched_strays : (patched v entries).Ends s fun r _ => ∀ new, r = .ok new →
    strays new.entriesOf = strays (Patch.merge v entries).entriesOf := by
  unfold patched
  dsimp only
  split
  · rintro _ ⟨⟩
    rfl
  · rw [ends_bind, ends_get, andThen_ok, ends_onSupply]
    exact (Factory.retype_strays _ _ _ s.host.supply (.refl _)).mono fun r supply ⟨_, hr⟩ => hr

/-- An edit that finds no change leaves the store alone. -/
theorem updateField_unseen (hfound : t.find? id = some (ofValue w)) (hw : w.IsIn .undated)
    (accepted : refusedPatch? id w (.map entries) = .ok none)
    (hkind : typeAsked w entries = w.getOrNull "type") (hfits : (Patch.merge w entries).Fits)
    (hmerged : (Patch.merge w entries).IsIn .undated)
    (hunseen : Unseen w (Patch.merge w entries)) :
    (updateField id (.map entries)).Ends t fun r u =>
      r = .ok (.unchanged "Patch does not change the field" .ok id) ∧ u = t := by
  obtain ⟨type, htype⟩ := exists_type_of_refusedPatch? accepted
  have hmade : (patched w entries).outcome t = (.ok (Patch.merge w entries), t) := by
    unfold patched
    dsimp only
    rw [show (Entries.get? entries (text "type")).getD _ = _ from htype,
      if_pos (Value.equals_text_iff.2 (hkind.symm.trans htype))]
    rfl
  have attempts : Attempts t id (.map entries) (ofValue w) (.ok (Patch.merge w entries)) t := by
    refine ⟨hfound, ?_, entries, rfl, ?_⟩ <;> rw [Field.value_ofValue]
    · exact accepted
    · exact hmade
  rw [attempts.ends, malformed?_eq_none_iff.2 hfits, Field.value_ofValue]
  dsimp only
  rw [(Difference.differ_eq_false_iff hw hmerged).2 hunseen, if_neg Bool.false_ne_true]
  exact ⟨rfl, rfl⟩

/-- A patch is not refused for a field if it asks for the same type as for another field with the id,
where it was not refused. -/
theorem refusedPatch?_congr (h : typeAsked w entries = typeAsked v entries) :
    refusedPatch? id w (.map entries) = refusedPatch? id v (.map entries) := by
  unfold refusedPatch?
  rw [show ((Value.map entries).get? "type").getD (w.getOrNull "type") = _ from h]
  rfl

/-- What a patch has made of a field has the type that the patch asks for. -/
theorem Patched.kind {u : Store} {new : Value} (h : Patched s v entries new u) (hv : v.Fits)
    (hentries : (Value.map entries).IsProper) :
    new.getOrNull "type" = typeAsked v entries ∧ typeAsked new entries = typeAsked v entries := by
  have hnew : new.getOrNull "type" = typeAsked v entries := by
    cases h.applied hv hentries with
    | merged _ type =>
        cases h with
        | merged same => rw [same, Value.getOrNull, type, Value.getOrNull]
        | reshaped asked other reshaped => rw [asked, Value.getOrNull, reshaped.kind]; rfl
    | reshaped _ asked _ reshaped =>
        rw [typeAsked, asked, Value.getOrNull, reshaped.kind]
        rfl
  refine ⟨hnew, ?_⟩
  unfold typeAsked at hnew ⊢
  cases hsaid : Entries.get? entries (text "type") with
  | none => rwa [hsaid] at hnew
  | some w => rfl

/-- What a patch has made of a field says all that the patch says. -/
theorem Patched.merge_eq_self {u : Store} {new : Value} (h : Patched s v entries new u) (hv : v.Fits)
    (hvproper : v.IsProper) (hnew : new.IsIn .undated) (hentries : (Value.map entries).IsProper)
    (hstrays : strays new.entriesOf = strays (Patch.merge v entries).entriesOf)
    (hunsaid : ∀ n ∈ ["options", "children", "of"], Entries.get? entries (text n) = none) :
    Patch.merge new entries = new := by
  have htextKeyed := hnew.textKeyed_of_undated
  rw [Patch.strays_of_textKeyed htextKeyed] at hstrays
  have hagain := fun hmap => Patch.merge_eq_self (hv.undated hvproper).textKeyed_of_undated hv.isMap
    htextKeyed hmap hentries hstrays.symm
  cases h with
  | merged => exact hagain (Patch.isMap_merge.trans hv.isMap) fun _ _ => rfl
  | @reshaped type _ _ asked other reshaped =>
      have hmap := Value.isMap_of_get? (Option.isSome_of_eq_some reshaped.kind)
      refine hagain hmap fun n hn => ?_
      by_cases htype : n = "type"
      · subst htype
        obtain ⟨w, hsaid⟩ := Option.isSome_iff_exists.1 (Entries.get?_isSome_iff.2 hn)
        have hother := (Patch.merge_merged hv.isMap hentries).other "type" (by decide) (by simp)
        rw [typeAsked, hsaid, Option.getD_some] at asked
        rw [hother, hsaid, asked, reshaped.kind]
        rfl
      · refine reshaped.other n fun hmem => ?_
        have hnone := hunsaid n ((List.mem_cons.1 hmem).resolve_left htype)
        exact Entries.get?_eq_none_iff.1 hnone hn

/-- Another type is a change that is found. -/
theorem Patched.of_unseen {u : Store} {new : Value} (h : Patched s v entries new u) (hv : v.Fits)
    (hunseen : Unseen v new) :
    new = Patch.merge v entries ∧ typeAsked v entries = v.getOrNull "type" := by
  cases h with
  | merged same => exact ⟨rfl, same⟩
  | @reshaped type _ _ _ other reshaped =>
      obtain ⟨old, hold⟩ := hv.exists_type
      have hget : v.get? "type" = some (.text old.name) := Value.get?_of_getOrNull hold (by simp)
      obtain ⟨es, rfl⟩ := Value.exists_eq_map hv.isMap
      obtain ⟨fs, rfl⟩ := Value.exists_eq_map
        (Value.isMap_of_get? (Option.isSome_of_eq_some reshaped.kind))
      have hrel := Unseen.map_iff.1 hunseen "type" (by cbv)
      rw [← Value.get?_map, ← Value.get?_map, hget, reshaped.kind] at hrel
      cases hrel with
      | some hunseen =>
          cases hunseen with
          | data _ _ same => exact absurd (hold.trans (Value.same_text_iff.1 same).symm) other

/-- An edit that went well finds no change when it is made once more. -/
theorem Updates.again {D : Value.Domain} {new : Value} {u : Store} {o : Outcome}
    (h : Updates s id v entries new u o t) (hs : s.IsSound D)
    (hfound : s.find? id = some (ofValue v)) (hvproper : v.IsProper) (hv : v.Fits)
    (hentries : (Value.map entries).IsProper)
    (hunsaid : ∀ n ∈ ["options", "children", "of"], Entries.get? entries (text n) = none) :
    (updateField id (.map entries)).Ends t fun r u =>
      r = .ok (.unchanged "Patch does not change the field" .ok id) ∧ u = t := by
  obtain ⟨⟨supply, rfl⟩, hpatched⟩ := (patched_patched hv.isMap h.accepted).outcome h.made
  have hpatched := hpatched new rfl
  have hproper : new.IsProper :=
    ((patched_ends .anything v entries).outcome h.made).2 new rfl hvproper hentries
  have hvundated := hv.undated hvproper
  have hundated := h.fits.undated hproper
  obtain ⟨hkind, hasked⟩ := hpatched.kind hv hentries
  cases hdiffer : Difference.differ v new with
  | false =>
      obtain ⟨-, rfl⟩ := h.dropped hdiffer
      have hunseen := (Difference.differ_eq_false_iff hvundated hundated).1 hdiffer
      obtain ⟨rfl, hsame⟩ := hpatched.of_unseen hv hunseen
      exact updateField_unseen hfound hvundated h.accepted hsame h.fits hundated hunseen
  | true =>
      obtain ⟨-, hcommits⟩ := h.stored hdiffer
      have hid : new.getOrNull "id" = v.getOrNull "id" := by
        rw [Value.getOrNull, (hpatched.applied hv hentries).id, Value.getOrNull]
      have hkept : (s.withSupply supply).schema = s.schema := rfl
      have hself := hpatched.merge_eq_self hv hvproper hundated hentries
        (patched_strays.outcome h.made new rfl) hunsaid
      refine updateField_unseen (find?_of_commits hs hfound hid hkept hcommits) hundated
        ((refusedPatch?_congr hasked).trans h.accepted) (hasked.trans hkind.symm) ?_ ?_ ?_
      · rw [hself]
        exact h.fits
      · rwa [hself]
      · rw [hself]
        exact .refl hundated

end Editing

/-- In every reachable store, an edit of a field that went well can be made once more, if its patch names
neither the options nor the children nor the template of the field: it goes well again, finds no change,
and leaves the store exactly as it was. -/
theorem Store.Reachable.updateField_again {s t : Store} {capacity id patch : Value} {o : Outcome}
    (hs : s.Reachable (fun _ c => c.IsProper) capacity) (hpatch : patch.IsProper)
    (hunsaid : ∀ n ∈ ["options", "children", "of"], patch.get? n = none)
    (ran : (Command.updateField id patch).run.outcome s = (.ok (.outcome o), t))
    (hok : o.ok = true) :
    (Command.updateField id patch).run.outcome t =
      (.ok (.outcome (.unchanged "Patch does not change the field" .ok id)), t) := by
  have hs := hs.isSound Value.Domain.isClosed_anything fun s c hc => hc.brings s
  obtain ⟨entries, f, new, u, rfl, hfound, hupdates⟩ := Editing.updates_of_run ran hok
  obtain ⟨v, -, -, rfl, hvproper, hv⟩ := hs.find? hfound
  rw [Field.value_ofValue] at hupdates
  have hagain : (Command.updateField id (.map entries)).run.Ends t fun r u =>
      r = .ok (.outcome (.unchanged "Patch does not change the field" .ok id)) ∧ u = t := by
    refine (ends_map _).2 ((hupdates.again hs hfound hvproper hv hpatch hunsaid).mono ?_)
    rintro r u ⟨rfl, hu⟩
    exact ⟨rfl, hu⟩
  exact Prod.ext hagain.1 hagain.2

/-- A patch that makes a field an array, with a rule more and without two attributes. -/
def Value.reshapingPatch : Value :=
  .ofFields [("type", .text "array"), ("helpText", .null),
    ("validation", .ofFields [("min", .int 1), ("regex", .null)])]

theorem Value.reshapingPatch_isProper : Value.reshapingPatch.IsProper := by
  refine .ofFields (by simp) ?_
  simp only [List.forall_mem_cons]
  refine ⟨.text _, .scalar rfl trivial, .ofFields (by simp) ?_, List.forall_mem_nil _⟩
  simp only [List.forall_mem_cons]
  exact ⟨.scalar rfl trivial, .scalar rfl trivial, List.forall_mem_nil _⟩

/-- A text field becomes an array, and the second time nothing is left to do. -/
theorem Store.reshaped_twice :
    let s := Store.bare.after [.addField (.textField "a")]
    let c := Command.updateField (.text "a") .reshapingPatch
    ∃ o t, c.run.outcome s = (.ok (.outcome o), t) ∧ o.ok = true ∧ o.changed = true ∧
      c.run.outcome t =
        (.ok (.outcome (.unchanged "Patch does not change the field" .ok (.text "a"))), t) := by
  intro s c
  have added : s.Reachable (fun _ c => c.IsProper) (.int 2) :=
    (Store.Reachable.bare (fun _ => .scalar rfl trivial) none).after
      (List.forall_mem_singleton.2 fun _ => Value.textField_isIn "a")
  have hunsaid : ∀ n ∈ ["options", "children", "of"], Value.reshapingPatch.get? n = none := by
    decide +kernel
  have hrun : Reply.isChange (c.run.outcome s).1 = true := by decide +kernel
  rcases ran : c.run.outcome s with ⟨r, t⟩
  rw [ran] at hrun
  obtain ⟨o, rfl, hok, hchanged⟩ := Reply.exists_of_isChange hrun
  exact ⟨o, t, rfl, hok, hchanged,
    Store.Reachable.updateField_again added Value.reshapingPatch_isProper hunsaid ran hok⟩

end FormDesigner
