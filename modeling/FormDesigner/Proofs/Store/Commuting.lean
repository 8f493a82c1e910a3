import FormDesigner.Proofs.Field.Changing
import FormDesigner.Proofs.Store.Adding
import FormDesigner.Proofs.Store.Applying

/-!
# Edits of different fields

An edit that goes well merges its patch into the field where it stands, or does nothing if no change is
found. A patch that names neither the type nor the children of a field is merged without a look at the
children, and whether a change is found does not depend on them either. So edits of two fields leave the
same schema in either order, even if one of the fields is in the other.
-/

namespace FormDesigner

open Value (nodes)
open FormDesigner.Field (ofValue)
open Difference (Unseen differ)
open Forest (IsLocal changeAt mapAll rebuilt)

/-! ### Patches -/

namespace Patch

variable {patch : Entries} {v w : Value}

/-- A patch that names neither the type nor the children of a field. -/
structure IsShallow (patch : Entries) : Prop where
  type : "type" ∉ Entries.names patch
  children : "children" ∉ Entries.names patch

/-- A field with a patch merged into it, if that counts. -/
def mergeIf (counts : Bool) (patch : Entries) (v : Value) : Value :=
  if counts then merge v patch else v

theorem IsShallow.isLocal (h : IsShallow patch) (counts : Bool) : IsLocal (mergeIf counts patch) := by
  cases counts with
  | false => exact Forest.isLocal_id
  | true =>
      refine ⟨fun v => ?_, fun v => ?_, fun cs _ hchildren => merge_put hchildren h.children⟩
      · rw [Value.getOrNull, mergeIf, if_pos rfl, get?_merge_id, Value.getOrNull]
      · rw [Value.isSection, Value.isSection, Value.hasType, Value.hasType, mergeIf, if_pos rfl,
          isMap_merge, Value.getOrNull, get?_merge_of_notMem h.type, Value.getOrNull]

end Patch

/-! ### Changes -/

namespace Difference

variable {v w u : Value} {n : String}

private theorem rel_self {x : Option Value} (hx : ∀ y ∈ x, y.IsIn .undated) :
    Option.Rel Unseen x x := by
  cases x with
  | none => exact .none
  | some y => exact .some (.refl (hx y rfl))

/-- What two fields have in common under a name does not tell them apart, whatever that is. -/
theorem differ_put (hv : v.IsIn .undated) (hw : w.IsIn .undated) (hu : u.IsIn .undated)
    (hvmap : v.isMap = true) (hwmap : w.isMap = true) (hn : v.get? n = w.get? n) :
    differ (v.put n u) (w.put n u) = differ v w := by
  obtain ⟨es, rfl⟩ := Value.exists_eq_map hvmap
  obtain ⟨fs, rfl⟩ := Value.exists_eq_map hwmap
  have hput : Unseen ((Value.map es).put n u) ((Value.map fs).put n u) ↔
      Unseen (.map es) (.map fs) := by
    rw [Value.put, Value.put, Unseen.map_iff, Unseen.map_iff]
    refine forall₂_congr fun m _ => ?_
    by_cases hmn : m = n
    · subst hmn
      rw [Entries.get?_insert_self, Entries.get?_insert_self, ← Value.get?_map, ← Value.get?_map,
        ← hn]
      exact iff_of_true (.some (.refl hu)) (rel_self fun y hy => hv.get? hy)
    · rw [Entries.get?_insert_of_ne hmn, Entries.get?_insert_of_ne hmn]
  rw [Bool.eq_iff_iff, ← not_iff_not, Bool.not_eq_true, Bool.not_eq_true,
    differ_eq_false_iff (hv.put hu) (hw.put hu), differ_eq_false_iff hv hw, hput]

end Difference

/-- Whether a patch makes a change in a field does not depend on changes below the field. -/
theorem Patch.IsShallow.differ_rebuilt {patch : Entries} {v : Value} {change : Value → Value}
    (h : IsShallow patch) (hlists : v.ListsChildren) (hv : v.isMap = true)
    (hundated : v.IsIn .undated) (hmerged : (merge v patch).IsIn .undated)
    (hrebuilt : (rebuilt change v).IsIn .undated)
    (hkept : ∀ u, u.getOrNull "id" = v.getOrNull "id" → change u = u) :
    differ (rebuilt change v) (merge (rebuilt change v) patch) = differ v (merge v patch) := by
  by_cases hsection : v.isSection = true
  · rw [Forest.rebuilt_of_isSection hsection,
      hkept _ (Value.getOrNull_put_of_ne (by decide))] at hrebuilt ⊢
    rw [merge_put (hlists.isSome_get? hsection) h.children]
    exact Difference.differ_put hundated hmerged (hrebuilt.get? (Value.get?_put_self hv)) hv
      (isMap_merge.trans hv) (get?_merge_of_notMem h.children).symm
  · rw [Forest.rebuilt_of_not_isSection hsection, hkept v rfl]

/-! ### Edits -/

namespace Store

variable {s t : Store} {id v : Value} {entries : Entries}

/-- An edit of a field goes well. -/
def Updated (s : Store) (id patch : Value) (t : Store) : Prop :=
  ∃ o, (Command.updateField id patch).run.outcome s = (.ok (.outcome o), t) ∧ o.ok = true

/-- The fields at the root stand in a list, and so do the children of every section. -/
structure ListsFields (s : Store) : Prop where
  roots : s.fields = .list (Schema.rootFields s.schema)
  children : ∀ u ∈ (Schema.rootFields s.schema).flatMap nodes, u.ListsChildren

/-- What an edit does to each field: it merges the patch into the one with the id, of which `v` is the
present value, unless no change is found. -/
def edit (id v : Value) (entries : Entries) : Value → Value :=
  changeAt id (Patch.mergeIf (differ v (Patch.merge v entries)) entries)

/-- A store has the fields of another one, each of them edited. -/
structure Edits (s : Store) (id v : Value) (entries : Entries) (t : Store) : Prop where
  found : s.find? id = some (ofValue v)
  fits : (Patch.merge v entries).Fits
  schema : t.schema = s.schema.put "fields" (.list (mapAll (edit id v entries) s.forest))

theorem IsSound.listsFields (hs : s.IsSound .json) : s.ListsFields where
  roots := hs.fields_eq
  children _ hu hsection := Value.put_childValues (hs.nodes hu).1 (hs.nodes hu).2 hsection

/-- An edit that goes well edits the field where it stands. -/
theorem Updated.edits {D : Value.Domain} {patch : Value} (h : s.Updated id patch t)
    (hs : s.IsSound D) (hlists : s.ListsFields) (htype : patch.get? "type" = none) :
    ∃ entries v, patch = .map entries ∧ s.Edits id v entries t := by
  obtain ⟨o, ran, hok⟩ := h
  obtain ⟨entries, f, new, u, rfl, hfound, hupdates⟩ := Editing.updates_of_run ran hok
  obtain ⟨v, hmem, hid, rfl, -, hv⟩ := hs.find? hfound
  rw [Field.value_ofValue] at hupdates
  have hsame : Editing.typeAsked v entries = v.getOrNull "type" :=
    congrArg (Option.getD · _) htype
  obtain ⟨rfl, rfl⟩ : new = Patch.merge v entries ∧ s = u := by
    obtain ⟨-, hpatched⟩ :=
      (Editing.patched_patched hv.isMap hupdates.accepted).outcome hupdates.made
    cases hpatched new rfl with
    | merged => exact ⟨rfl, rfl⟩
    | reshaped asked other => exact absurd (hsame.symm.trans asked) other
  refine ⟨entries, v, rfl, hfound, hupdates.fits, ?_⟩
  have hone : ∀ u ∈ (Schema.rootFields s.schema).flatMap nodes, Forest.hasId id u = true → u = v :=
    fun u hu huid => Forest.eq_of_hasId (fun x hx => (hs.fields x hx).2) hs.schema.ids hu hmem huid hid
  unfold edit
  rw [Store.forest_eq]
  cases hdiffer : differ v (Patch.merge v entries) with
  | true =>
      rw [(hupdates.stored hdiffer).2.schema, Store.forest_eq,
        ← Forest.replace_eq_mapAll hlists.children hone]
      rfl
  | false =>
      have hkept : mapAll (changeAt id (Patch.mergeIf false entries))
          ((Schema.rootFields s.schema).map ofValue) = Schema.rootFields s.schema :=
        Forest.mapAll_eq_self hlists.children fun u _ => ite_self u
      rw [(hupdates.dropped hdiffer).2, hkept,
        Value.put_eq_self hs.schema.isIn.isProper (Value.get?_of_getOrNull hlists.roots nofun)]

/-- An edit leaves the fields and the children of sections in lists. -/
theorem Edits.listsFields {D : Value.Domain} (h : s.Edits id v entries t) (hs : s.IsSound D)
    (hentries : Patch.IsShallow entries) : t.ListsFields := by
  have hroots := hs.rootFields_eq h.schema
  refine ⟨?_, ?_⟩
  · rw [hroots, Store.fields, h.schema, Value.getOrNull_put_self hs.schema.shape.isMap]
  · rw [hroots, forest_eq]
    exact ((hentries.isLocal _).changeAt id).listsChildren_mapAll

section TwoEdits

variable {s₁ s₂ : Store} {a b w w' : Value} {p q : Entries}

/-- The other field is edited after the first one as it is before. -/
theorem Edits.schema_after {D : Value.Domain} (h₁ : s.Edits a v p s₁) (h₂ : s₁.Edits b w' q t)
    (h : s.Edits b w q s₂) (hs : s.IsSound D) (hlists : s.ListsFields)
    (hs₁ : s₁.IsSound .anything) (hp : Patch.IsShallow p) (hq : Patch.IsShallow q)
    (hproper : (Value.map q).IsProper)
    (hids : ∀ u, Forest.hasId b u = true → ¬ Forest.hasId a u = true) :
    t.schema = s.schema.put "fields"
      (.list (mapAll (fun u => edit b w q (edit a v p u)) s.forest)) := by
  have hlocal : IsLocal (edit a v p) := (hp.isLocal _).changeAt a
  have hroots : Schema.rootFields s₁.schema = mapAll (edit a v p) s.forest :=
    hs.rootFields_eq h₁.schema
  have hfound := h.found
  have hfound₁ := h₂.found
  rw [Store.find?, forest_eq] at hfound hfound₁
  rw [forest_eq] at hroots
  rw [hroots, hlocal.find?_mapAll hfound, Option.some.injEq] at hfound₁
  obtain rfl := Field.ofValue_injective hfound₁
  obtain ⟨u, hmem, hid, heq, hw, hfits⟩ := hs.find? h.found
  obtain rfl := Field.ofValue_injective heq
  obtain ⟨u', -, -, heq', hw', hfits'⟩ := hs₁.find? h₂.found
  obtain rfl := Field.ofValue_injective heq'
  have hkept : ∀ u, u.getOrNull "id" = w.getOrNull "id" → edit a v p u = u := by
    refine fun u hu => if_neg fun ha => hids w hid ?_
    rwa [Forest.hasId, ← hu]
  have hsame := hq.differ_rebuilt (hlists.children w hmem) hfits.isMap (hfits.undated hw.isProper)
    (h.fits.undated (Patch.merge_isIn hw.isProper hproper)) (hfits'.undated hw') hkept
  rw [h₂.schema, h₁.schema, forest_eq s₁, hroots, hlocal.mapAll_mapAll, Value.put_put, forest_eq s,
    edit, hsame]
  rfl

end TwoEdits

end Store

/-- In a store whose documents JSON can carry, edits of two fields leave the same schema in either order,
if all of them go well and their patches name neither the type nor the children of a field. One of the
fields may be in the other. -/
theorem Store.Reachable.updates_commute {s s₁ s₂ t₁ t₂ : Store} {capacity a b p q : Value}
    (hs : s.Reachable (fun s c => c.Brings .json s) capacity) (hab : a ≠ b)
    (hp : p.IsProper) (hq : q.IsProper)
    (hpsaid : ∀ n ∈ ["type", "children"], p.get? n = none)
    (hqsaid : ∀ n ∈ ["type", "children"], q.get? n = none)
    (first : s.Updated a p s₁) (second : s₁.Updated b q t₁)
    (first' : s.Updated b q s₂) (second' : s₂.Updated a p t₂) : t₁.schema = t₂.schema := by
  have hs := hs.isSound Value.Domain.isClosed_json fun _ _ h => h
  have hsound : ∀ {id patch : Value} {t : Store}, patch.IsProper → s.Updated id patch t →
      t.IsSound .anything := by
    rintro id patch t hpatch ⟨o, ran, -⟩
    exact (((Command.updateField id patch).run_ends s).outcome ran).isSound
      Value.Domain.isClosed_anything hs.proper hpatch
  have hs₁ := hsound hp first
  have hs₂ := hsound hq first'
  have hptype := hpsaid "type" (by decide)
  have hqtype := hqsaid "type" (by decide)
  obtain ⟨p, v, rfl, h₁⟩ := first.edits hs hs.listsFields hptype
  obtain ⟨q, w, rfl, h₂⟩ := first'.edits hs hs.listsFields hqtype
  have hpshallow : Patch.IsShallow p :=
    ⟨Entries.get?_eq_none_iff.1 hptype, Entries.get?_eq_none_iff.1 (hpsaid "children" (by decide))⟩
  have hqshallow : Patch.IsShallow q :=
    ⟨Entries.get?_eq_none_iff.1 hqtype, Entries.get?_eq_none_iff.1 (hqsaid "children" (by decide))⟩
  obtain ⟨_, w', ⟨⟩, h₃⟩ := second.edits hs₁ (h₁.listsFields hs hpshallow) hqtype
  obtain ⟨_, v', ⟨⟩, h₄⟩ := second'.edits hs₂ (h₂.listsFields hs hqshallow) hptype
  have hids : ∀ u, Forest.hasId a u = true → ¬ Forest.hasId b u = true := by
    obtain ⟨n, rfl⟩ := hs.exists_text h₁.found
    obtain ⟨m, rfl⟩ := hs.exists_text h₂.found
    intro u ha hb
    exact hab ((Value.equals_text_right_iff.1 ha).symm.trans (Value.equals_text_right_iff.1 hb))
  rw [h₁.schema_after h₃ h₂ hs hs.listsFields hs₁ hpshallow hqshallow hq fun u hb ha => hids u ha hb,
    h₂.schema_after h₄ h₁ hs hs.listsFields hs₂ hqshallow hpshallow hp hids]
  have hcomm : (fun u => edit b w q (edit a v p u)) = fun u => edit a v p (edit b w q u) :=
    funext fun u => Forest.changeAt_changeAt (hpshallow.isLocal _) (hqshallow.isLocal _) hids u
  rw [hcomm]

theorem Store.updated_of_isChange {s : Store} {id patch : Value}
    (h : Reply.isChange ((Command.updateField id patch).run.outcome s).1 = true) :
    s.Updated id patch (s.after [.updateField id patch]) := by
  obtain ⟨o, ho, hok, -⟩ := Reply.exists_of_isChange h
  exact ⟨o, Prod.ext ho rfl, hok⟩

/-- A section gets another label, and a field in it must be filled in. -/
theorem Store.section_and_child_updated :
    let s := Store.bare.after [.addField (.sectionField "a" [.textField "b"])]
    let p := Value.ofFields [("label", .text "A")]
    let q := Value.ofFields [("required", .bool true)]
    let s₁ := s.after [.updateField (.text "a") p]
    let s₂ := s.after [.updateField (.text "b") q]
    let t₁ := s₁.after [.updateField (.text "b") q]
    let t₂ := s₂.after [.updateField (.text "a") p]
    s.Updated (.text "a") p s₁ ∧ s₁.Updated (.text "b") q t₁ ∧ s.Updated (.text "b") q s₂ ∧
      s₂.Updated (.text "a") p t₂ ∧ t₁.schema = t₂.schema := by
  intro s p q s₁ s₂ t₁ t₂
  have edited : s.Reachable (fun s c => c.Brings .json s) (.int 2) :=
    Store.reachable_of_brings (List.forall_mem_singleton.2 fun _ =>
      Value.sectionField_isIn "a" (List.forall_mem_singleton.2 (Value.textField_isIn "b")))
  have hp : p.IsProper := .ofFields (by simp) (List.forall_mem_singleton.2 (.text _))
  have hq : q.IsProper := .ofFields (by simp) (List.forall_mem_singleton.2 (.scalar rfl trivial))
  have first : s.Updated (.text "a") p s₁ := updated_of_isChange (by decide +kernel)
  have second : s₁.Updated (.text "b") q t₁ := updated_of_isChange (by decide +kernel)
  have first' : s.Updated (.text "b") q s₂ := updated_of_isChange (by decide +kernel)
  have second' : s₂.Updated (.text "a") p t₂ := updated_of_isChange (by decide +kernel)
  exact ⟨first, second, first', second', Store.Reachable.updates_commute edited (by simp) hp hq
    (by decide +kernel) (by decide +kernel) first second first' second'⟩

end FormDesigner
