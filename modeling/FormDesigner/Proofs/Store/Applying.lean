import Mathlib
import FormDesigner.Proofs.Field.Reshaping
import FormDesigner.Proofs.Store.Merging
import FormDesigner.Proofs.Store.Updating
import FormDesigner.Proofs.Value.Unseen

/-!
# Patches that are applied

When an edit of a field goes well, the field with the patch merged into it stands in its place. The
one exception is that nothing at all happens where the search for changes finds none, although the
merged field need not be the same: numbers and truth values that are equal are not told apart in
lists of plain data.
-/

namespace FormDesigner

open Work
open Value (text)
open FormDesigner.Field (ofValue)
open Difference (Unseen)

namespace Patch

/-- What becomes of a field by a patch: the patch is merged into it, and the result gets the shape of
the type that the patch names, if that is another one. -/
inductive Applied (taken : List Value) (v : Value) (patch : Entries) : Value → Prop
  | merged {new : Value} (merged : Merged v patch new) (type : new.get? "type" = v.get? "type") :
      Applied taken v patch new
  | reshaped {t : FieldType} {u new : Value} (merged : Merged v patch u)
      (asked : Entries.get? patch (text "type") = some (.text t.name))
      (other : v.get? "type" ≠ some (.text t.name)) (reshaped : Factory.Reshaped t taken u new) :
      Applied taken v patch new

theorem Applied.id {taken : List Value} {v new : Value} {patch : Entries}
    (h : Applied taken v patch new) : new.get? "id" = v.get? "id" := by
  cases h with
  | merged merged _ => exact merged.id
  | reshaped merged _ _ reshaped => exact (reshaped.other "id" (by decide)).trans merged.id

end Patch

namespace Editing

variable {s : Store} {id v : Value} {entries : Entries}

/-! ### Refusals -/

/-- The type that a field is to have after a patch. -/
def typeAsked (v : Value) (entries : Entries) : Value :=
  (Entries.get? entries (text "type")).getD (v.getOrNull "type")

/-- A patch that is not refused names a known type, if any. -/
theorem exists_type_of_refusedPatch? (h : refusedPatch? id v (.map entries) = .ok none) :
    ∃ t : FieldType, typeAsked v entries = .text t.name := by
  have hknown : ∀ type : Value, (do
      if (FieldType.ofValue? type).isNone then
        return some (Outcome.failure .invalidPatch
          ("Unsupported field type '" ++ (← type.plain) ++ "'") id [])
      return none) = Except.ok (ε := Failure) none → ∃ t : FieldType, type = .text t.name := by
    intro type h
    split at h
    · obtain ⟨_, -, h⟩ := Result.bind_eq_ok.1 h
      cases h
    · next hsome =>
        obtain ⟨t, ht⟩ := Option.ne_none_iff_exists'.1 (mt Option.isNone_iff_eq_none.2 hsome)
        exact ⟨t, Shape.typeOf?_eq_some_iff.1 ht⟩
  unfold refusedPatch? at h
  dsimp only at h
  split at h
  · split at h
    · cases Except.ok.inj h
    · exact hknown _ h
  · exact hknown _ h

/-! ### What a patch makes of a field -/

/-- What a patch makes of a field: the patch is merged into it, and if it names another type, the result
gets the shape of that type, for which names may be used up. -/
inductive Patched (s : Store) (v : Value) (entries : Entries) : Value → Store → Prop
  | merged (same : typeAsked v entries = v.getOrNull "type") :
      Patched s v entries (Patch.merge v entries) s
  | reshaped {t : FieldType} {new : Value} {supply : Supply}
      (asked : typeAsked v entries = .text t.name) (other : v.getOrNull "type" ≠ .text t.name)
      (reshaped : Factory.Reshaped t s.keys (Patch.merge v entries) new) :
      Patched s v entries new (s.withSupply supply)

theorem patched_patched (hv : v.isMap = true)
    (hrefused : refusedPatch? id v (.map entries) = .ok none) :
    (patched v entries).Ends s fun r t => (∃ supply, t = s.withSupply supply) ∧
      ∀ new, r = .ok new → Patched s v entries new t := by
  have hmap : (Patch.merge v entries).isMap = true := Patch.isMap_merge.trans hv
  obtain ⟨t, ht⟩ := exists_type_of_refusedPatch? hrefused
  unfold patched
  dsimp only
  rw [show (Entries.get? entries (text "type")).getD _ = _ from ht]
  split
  · next hequals =>
      refine ⟨⟨s.host.supply, rfl⟩, fun new hnew => Except.ok.inj hnew ▸ .merged ?_⟩
      exact ht.trans (Value.equals_text_iff.1 hequals).symm
  · next hother =>
      rw [ends_bind, ends_get, andThen_ok, ends_onSupply]
      refine (Factory.retype_reshaped hmap t s.keys s.host.supply (.refl _)).mono
        fun r supply ⟨_, hr⟩ => ⟨⟨supply, rfl⟩, fun new hnew => ?_⟩
      exact .reshaped ht (fun heq => hother (Value.equals_text_iff.2 heq)) (hr new hnew)

theorem Patched.applied {u : Store} {new : Value} (h : Patched s v entries new u) (hv : v.Fits)
    (hentries : (Value.map entries).IsProper) : Patch.Applied s.keys v entries new := by
  have hmerged := Patch.merge_merged hv.isMap hentries
  obtain ⟨old, hold⟩ := hv.exists_type
  have hget : v.get? "type" = some (.text old.name) := Value.get?_of_getOrNull hold (by simp)
  cases h with
  | merged same =>
      refine .merged hmerged ?_
      rw [hmerged.other "type" (by decide) (by simp), hget]
      cases hsaid : Entries.get? entries (text "type") with
      | none => rfl
      | some w =>
          rw [typeAsked, hsaid, Option.getD_some, hold] at same
          rw [same]
          rfl
  | @reshaped t _ _ asked other reshaped =>
      refine .reshaped hmerged ?_ (fun heq => other ?_) reshaped
      · cases hsaid : Entries.get? entries (text "type") with
        | none =>
            rw [typeAsked, hsaid, Option.getD_none] at asked
            exact absurd asked other
        | some w =>
            rw [typeAsked, hsaid, Option.getD_some] at asked
            rw [asked]
      · rw [Value.getOrNull, heq]
        rfl

/-! ### What becomes of the patched field -/

/-- The answer to an edit of a field for which another one was worked out: that one takes its place,
unless no change is found between the two. -/
structure Settles (s : Store) (id v new : Value) (o : Outcome) (t : Store) : Prop where
  stored : ¬ Unseen v new → o = .success "update_field" id ∧ t.find? id = some (ofValue new)
  dropped : Unseen v new →
    o = .unchanged "Patch does not change the field" .ok id ∧ s.SameDocument t

/-- An edit of a field that goes well puts the patched field in the place of the field, unless no change
is found between the two. -/
theorem updateField_applies {D : Value.Domain} (hs : s.IsSound D) {f : Field}
    (hfound : s.find? id = some f) {patch : Value} (hpatch : patch.IsProper) :
    (updateField id patch).Ends s fun r t => ∀ o, r = .ok o → o.ok = true →
      ∃ entries new, patch = .map entries ∧ Patch.Applied s.keys f.value entries new ∧
        Settles s id f.value new o t := by
  refine (updateField_updates id patch).mono fun r t hupdates o ho hok => ?_
  obtain ⟨entries, g, new, u, rfl, hg, hupdates⟩ := hupdates o ho hok
  obtain rfl := Option.some.inj (hfound.symm.trans hg)
  obtain ⟨v, -, -, rfl, hvin, hv⟩ := hs.find? hfound
  rw [Field.value_ofValue] at hupdates ⊢
  obtain ⟨⟨supply, rfl⟩, hpatched⟩ :=
    (patched_patched hv.isMap hupdates.accepted).outcome hupdates.made
  have happlied := (hpatched new rfl).applied hv hpatch
  have hproper : new.IsProper :=
    ((patched_ends .anything v entries).outcome hupdates.made).2 new rfl hvin.isProper hpatch
  have hseen := Difference.differ_eq_false_iff (hv.undated hvin.isProper)
    (hupdates.fits.undated hproper)
  refine ⟨entries, new, rfl, happlied, fun hnot => ?_, fun hunseen => ?_⟩
  · have hid : new.getOrNull "id" = v.getOrNull "id" := by
      rw [Value.getOrNull, happlied.id, Value.getOrNull]
    obtain ⟨hanswer, hcommits⟩ := hupdates.stored (Bool.of_not_eq_false (mt hseen.1 hnot))
    have hkept : (s.withSupply supply).schema = s.schema := rfl
    exact ⟨hanswer, find?_of_commits hs hfound hid hkept hcommits⟩
  · obtain ⟨hanswer, rfl⟩ := hupdates.dropped (hseen.2 hunseen)
    exact ⟨hanswer, rfl, rfl, rfl, rfl⟩

end Editing

/-- In every reachable store, an edit of a field that goes well leaves the field with the patch merged
into it, unless no change is found between that and the field: then the edit says so and leaves the
document as it was. -/
theorem Store.Reachable.updateField_applies_unless_unseen {s : Store} {capacity id patch : Value}
    (h : s.Reachable (fun _ c => c.IsProper) capacity) {f : Field} (hfound : s.find? id = some f)
    (hpatch : patch.IsProper) :
    (Command.updateField id patch).run.Ends s fun r t => ∀ o, r = .ok (.outcome o) → o.ok = true →
      ∃ entries new, patch = .map entries ∧ Patch.Applied s.keys f.value entries new ∧
        Editing.Settles s id f.value new o t := by
  have hs := h.isSound Value.Domain.isClosed_anything fun s c hc => hc.brings s
  refine (ends_map _).2 ((Editing.updateField_applies hs hfound hpatch).mono ?_)
  rintro (e | o) t happlies _ ⟨⟩ hok
  exact happlies o rfl hok

/-- A text field with a list of one default value. -/
def Value.fieldWithDefault (item : Value) : Value :=
  .ofFields [("id", .text "a"), ("key", .text "a"), ("type", .text "text"), ("label", .text "A"),
    ("defaultValue", .list [item])]

/-- A store for one field, whose default values are the list of zero. -/
def Store.withZero : Store :=
  .start .bare (.ofFields [("version", .int 1), ("fields", .list [Value.fieldWithDefault (.int 0)])])
    ⟨.int 2, 2, Nat.two_pos⟩ none

theorem Store.withZero_reachable : Store.withZero.Reachable (fun _ c => c.IsProper) (.int 2) := by
  have hvalid : Schema.problems Store.withZero.schema = .ok [] := by cbv
  have hproper : Store.withZero.schema.IsProper := by
    refine .ofFields (by simp) ?_
    simp only [List.forall_mem_cons]
    refine ⟨.scalar rfl trivial, .list (List.forall_mem_singleton.2 ?_), List.forall_mem_nil _⟩
    refine .ofFields (by simp) ?_
    simp only [List.forall_mem_cons]
    exact ⟨.text _, .text _, .text _, .text _,
      .list (List.forall_mem_singleton.2 (.scalar rfl trivial)), List.forall_mem_nil _⟩
  have created : Store.create .bare Store.withZero.schema (.int 2) none = .ok Store.withZero := by
    change (do
      let loaded ← Schema.load Store.withZero.schema
      return Store.start .bare loaded (← Capacity.ofValue (.int 2)) none) = _
    rw [Schema.load_of_problems hvalid]
    rfl
  exact .new Host.bare_givesIds (fun _ => hproper) created

/-- What the reply to an edit says that went well and changed nothing. -/
def Reply.isUnchanged : Except Failure Reply → Bool
  | .ok (.outcome o) => o.ok && !o.changed
  | _ => false

/-- What the reply to an edit says that went well and changed something. -/
def Reply.isChange : Except Failure Reply → Bool
  | .ok (.outcome o) => o.ok && o.changed
  | _ => false

theorem Reply.exists_of_isChange {r : Except Failure Reply} (h : Reply.isChange r = true) :
    ∃ o, r = .ok (.outcome o) ∧ o.ok = true ∧ o.changed = true := by
  rcases r with e | o | v
  · cases h
  · exact ⟨o, rfl, Bool.and_eq_true_iff.1 h⟩
  · cases h

/-- A field whose default values are the list of zero keeps them when they are to be the list of
false, although the edit goes well. -/
theorem Store.truth_value_dropped :
    let patch := Value.ofFields [("defaultValue", .list [.bool false])]
    Store.withZero.Reachable (fun _ c => c.IsProper) (.int 2) ∧ patch.IsProper ∧
      Store.withZero.find? (.text "a") = some (ofValue (Value.fieldWithDefault (.int 0))) ∧
      ∃ o t entries new,
        (Command.updateField (.text "a") patch).run.outcome Store.withZero = (.ok (.outcome o), t) ∧
        o.ok = true ∧ patch = .map entries ∧
        Patch.Applied Store.withZero.keys (Value.fieldWithDefault (.int 0)) entries new ∧
        new.get? "defaultValue" = some (.list [.bool false]) ∧ Store.withZero.SameDocument t := by
  intro patch
  have hpatch : patch.IsProper := .ofFields (by simp)
    (List.forall_mem_singleton.2 (.list (List.forall_mem_singleton.2 (.scalar rfl trivial))))
  have hfound : Store.withZero.find? (.text "a") =
      some (ofValue (Value.fieldWithDefault (.int 0))) := by cbv
  have hrun : Reply.isUnchanged ((Command.updateField (.text "a")
      (.ofFields [("defaultValue", .list [.bool false])])).run.outcome Store.withZero).1 = true := by
    cbv
  have happlies := Store.Reachable.updateField_applies_unless_unseen Store.withZero_reachable hfound
    hpatch
  rcases ran : (Command.updateField (.text "a") patch).run.outcome Store.withZero with ⟨r, t⟩
  rw [ran] at hrun
  obtain ⟨o, rfl, hanswer⟩ : ∃ o, r = .ok (.outcome o) ∧ (o.ok && !o.changed) = true := by
    rcases r with e | o | v
    · cases hrun
    · exact ⟨o, rfl, hrun⟩
    · cases hrun
  rw [Bool.and_eq_true_iff, Bool.not_eq_true'] at hanswer
  obtain ⟨entries, new, hentries, happlied, hsettles⟩ := happlies.outcome ran o rfl hanswer.1
  rw [Field.value_ofValue] at happlied hsettles
  have hsaid : ∀ n, Entries.get? entries (text n) = patch.get? n := fun n => by rw [hentries]; rfl
  have hnew : new.get? "defaultValue" = some (.list [.bool false]) := by
    cases happlied with
    | merged merged _ =>
        have hother := merged.other "defaultValue" (by decide) (by simp)
        rw [hsaid, show patch.get? "defaultValue" = some (.list [.bool false]) by cbv] at hother
        exact hother
    | reshaped _ asked =>
        rw [hsaid, show patch.get? "type" = none by cbv] at asked
        cases asked
  have hunseen : Unseen (Value.fieldWithDefault (.int 0)) new := by
    by_contra hnot
    rw [(hsettles.stored hnot).1] at hanswer
    cases hanswer.2
  exact ⟨Store.withZero_reachable, hpatch, hfound, o, t, entries, new, rfl, hanswer.1, hentries,
    happlied, hnew, (hsettles.dropped hunseen).2⟩

end FormDesigner
