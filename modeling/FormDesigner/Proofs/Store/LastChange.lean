import FormDesigner.Proofs.Schema.Recalling
import FormDesigner.Proofs.Store.Applying
import FormDesigner.Proofs.Store.Moving
import FormDesigner.Proofs.Store.Pasting
import FormDesigner.Proofs.Store.Removing

/-!
# What the last edit is said to have changed

An edit notes the schema as a text before it changes it, and what the edit changed is found out again
by comparing what is read from that text with the present schema. For a field that was added, pasted
or removed this tells exactly of what it owns, and for a move of the siblings between the two
positions: nothing that the edit shifts along is taken for a change.
-/

namespace FormDesigner

open Work
open Command (AreSound)
open Schema (SameAround addedLines removedLines movedLines outline rootFields describeChanges)
open FormDesigner.Field (ofValue)

theorem History.getLast?_pushPast (h : History) (u : Snapshot) :
    (h.pushPast u).past.getLast? = some u := by
  have hpos := h.capacity.size_pos
  change (newest h.capacity.size (h.past ++ [u])).getLast? = some u
  rw [newest, List.drop_append_of_le_length, List.getLast?_concat]
  rw [List.length_append, List.length_singleton]
  omega

/-- A command succeeds on a store and leaves another one. -/
def Command.Succeeds (c : Command) (s t : Store) : Prop :=
  ∃ o, c.run.outcome s = (.ok (.outcome o), t) ∧ o.ok = true

namespace Store

variable {s t : Store} {field target id : Value} {fields a b xs : List Value} {f g : Field}
  {owner : Option Value} {i j : Nat}

/-- What a commit changed is told from the schema that it noted. -/
theorem Commits.lastChange_eq {D : Value.Domain} (h : s.Commits fields t)
    (hs : Schema.IsSound D s.schema) :
    t.lastChange = describeChanges (Json.image true s.schema) t.schema := by
  obtain ⟨noted, hexport, hhistory⟩ := h.history
  have hlast : t.history.past.getLast? = some noted := by
    rw [hhistory]
    exact s.history.getLast?_pushPast noted
  have hrestore : noted.restore = .ok (Json.image true s.schema) := hs.parse_exportText hexport
  rw [lastChange, hlast]
  dsimp only
  rw [hrestore]
  rfl

/-- A field stands where an edit has put it: last at the root, or last among the children of the
section that was found. -/
inductive Receives (s : Store) (field : Value) (t : Store) : Value → Prop
  | root {target : Value} (isNull : target.isNull = true)
      (fields : rootFields t.schema = rootFields s.schema ++ [field]) : Receives s field t target
  | inside {target : Value} {g : Field} (isSection : g.isSection = true)
      (nests : s.Nests target field g t) : Receives s field t target

section Commits

variable (hs : s.IsSound .json) (hfields : AreSound .json fields) (h : s.Commits fields t)
include hs hfields h

theorem Commits.isSound : Schema.IsSound .json t.schema :=
  h.schema ▸ hs.schema.put_fields hfields.each hfields.ids hfields.keys

theorem Commits.lastChange_added
    (hplace : SameAround (a ++ b) (a ++ field :: b) (outline (rootFields s.schema))
      (outline fields)) : t.lastChange = .ok (addedLines field) := by
  rw [h.lastChange_eq hs.schema]
  rw [← hs.rootFields_eq h.schema] at hplace
  exact Schema.describeChanges_added hs.schema (h.isSound hs hfields) hplace

theorem Commits.lastChange_removed
    (hplace : SameAround (a ++ field :: b) (a ++ b) (outline (rootFields s.schema))
      (outline fields)) : t.lastChange = .ok (removedLines field) := by
  rw [h.lastChange_eq hs.schema]
  rw [← hs.rootFields_eq h.schema] at hplace
  exact Schema.describeChanges_removed hs.schema (h.isSound hs hfields) hplace

theorem Commits.lastChange_moved (hi : i < xs.length) (hj : j < xs.length) (hij : i ≠ j)
    (hplace : SameAround xs (moved xs i j) (outline (rootFields s.schema)) (outline fields)) :
    t.lastChange = .ok (movedLines xs i j) := by
  rw [h.lastChange_eq hs.schema]
  rw [← hs.rootFields_eq h.schema] at hplace
  exact Schema.describeChanges_moved hi hj hs.schema (h.isSound hs hfields) hij hplace

end Commits

/-! ### Where edits change a tree -/

theorem IsSound.sameAround_insertChild (hs : s.IsSound .json) (field : Value)
    (hfound : s.find? target = some g) (hsection : g.isSection = true) :
    SameAround (g.value.childValues ++ []) (g.value.childValues ++ [field])
      (outline (rootFields s.schema)) (outline (Forest.insertChild target field s.forest)) := by
  obtain ⟨hvalue, hspliced⟩ := hs.insertChild_spliced field hfound hsection
  rw [List.append_nil]
  exact .of_children hspliced hvalue

theorem IsSound.sameAround_remove (hs : s.IsSound .json) (hfound : s.find? id = some f) :
    ∃ a b, SameAround (a ++ f.value :: b) (a ++ b) (outline (rootFields s.schema))
      (outline (Forest.remove id s.forest)) := by
  obtain ⟨w, hw, hwid, rfl, -, -⟩ := hs.find? hfound
  have hspliced := Forest.remove_spliced hs.fields hs.schema.ids hw hwid
  rw [← forest_eq] at hspliced
  obtain ⟨a, b, h⟩ := (SameAround.outlines _ _).spliced hspliced
  rw [List.append_nil] at h
  exact ⟨a, b, (Field.value_ofValue w).symm ▸ h⟩

theorem IsSound.sameAround_withSiblings (hs : s.IsSound .json) (h : s.Siblings owner xs)
    (ys : List Value) : SameAround xs ys (outline (rootFields s.schema))
      (outline (s.withSiblings owner ys)) := by
  cases h with
  | root => exact .outlines _ ys
  | @children id g found isSection =>
      obtain ⟨w, hw, hwid, rfl, -, -⟩ := hs.find? found
      rw [Field.isSection, Field.value_ofValue] at isSection
      rw [Field.children_ofValue, Forest.toValues_map_ofValue, withSiblings, forest_eq]
      exact .of_children
        (Forest.replaceChildren_spliced hs.fields hs.schema.ids hw hwid isSection ys) isSection

end Store

namespace Editing

variable {s t : Store} {field target id content : Value} {fields : List Value} {f g : Field}

private theorem not_ok_of_isRefusal {refusal : Outcome} (h : refusal.IsRefusal) {P : Prop} :
    ∀ o, (Except.ok refusal : Except Failure Outcome) = .ok o → o.ok = true → P := by
  rintro o ⟨⟩ hok
  rw [h.ok] at hok
  cases hok

/-- What holds of every store to which sound fields are committed holds when the commit succeeds. -/
theorem commitChecked_succeeds {Q : Store → Prop} (hs : s.IsSound .json)
    (each : ∀ x ∈ fields, x.IsJson ∧ x.Fits)
    (hQ : ∀ t, AreSound .json fields → s.Commits fields t → Q t) (label : String) (id : Value) :
    (commitChecked fields label id).Ends s fun r t => ∀ o, r = .ok o → o.ok = true → Q t := by
  refine (commitChecked_decides hs each label id).mono fun r t ⟨hcommits, hrefuses⟩ o ho hok => ?_
  by_cases hsound : AreSound .json fields
  · exact hQ t hsound (hcommits hsound).commits
  · obtain ⟨-, o', ho', hnot⟩ := hrefuses hsound
    rw [Except.ok.inj (ho.symm.trans ho'), hnot] at hok
    cases hok

/-- A field that is added, at the root or to a section, stands there and is what is told of. -/
theorem commitChecked_receives (hs : s.IsSound .json) (hfield : field.IsJson ∧ field.Fits)
    (hfields : (target.isNull = true ∧ fields = rootFields s.schema ++ [field]) ∨
      ∃ g, s.find? target = some g ∧ g.isSection = true ∧
        fields = Forest.insertChild target field s.forest) (label : String) (id : Value) :
    (commitChecked fields label id).Ends s fun r t => ∀ o, r = .ok o → o.ok = true →
      s.Receives field t target ∧ t.lastChange = .ok (addedLines field) := by
  rcases hfields with ⟨hnull, rfl⟩ | ⟨g, hfound, hsection, rfl⟩
  · refine commitChecked_succeeds hs (hs.isEnlarged_root hfield).each (fun t hsound h => ⟨?_, ?_⟩) _ _
    · exact .root hnull (hs.rootFields_eq h.schema)
    · refine h.lastChange_added hs hsound (a := rootFields s.schema) (b := []) ?_
      rw [List.append_nil]
      exact .outlines _ _
  · refine commitChecked_succeeds hs (hs.isEnlarged_section hfound hsection hfield).each
      (fun t hsound h => ⟨?_, ?_⟩) _ _
    · exact .inside hsection (hs.nests hfound hsection hsound h.schema)
    · exact h.lastChange_added hs hsound (hs.sameAround_insertChild field hfound hsection)

theorem addField_receives (hs : s.IsSound .json) (hfield : field.IsJson) :
    (addField field).Ends s fun r t => ∀ o, r = .ok o → o.ok = true →
      s.Receives field t .null ∧ t.lastChange = .ok (addedLines field) := by
  unfold addField
  cases hshape : malformed? field with
  | some refusal => exact not_ok_of_isRefusal (isRefusal_malformed? hshape)
  | none =>
      dsimp only
      rw [ends_bind, ends_get, andThen_ok, ends_bind, ends_ofExcept, withRoot, hs.fields_eq]
      exact commitChecked_receives hs ⟨hfield, malformed?_eq_none_iff.1 hshape⟩ (.inl ⟨rfl, rfl⟩) _ _

/-- Work on a section succeeds only if there is one. -/
private theorem inSection_succeeds {w : Field → Editing Outcome} {Q : Store → Prop}
    (hw : ∀ g, s.find? target = some g → g.isSection = true →
      (w g).Ends s fun r t => ∀ o, r = .ok o → o.ok = true → Q t) :
    (do
      match ← Work.ofExcept (section? s target) with
      | .error r => return r
      | .ok g => w g : Editing Outcome).Ends s fun r t => ∀ o, r = .ok o → o.ok = true → Q t := by
  rw [ends_bind, ends_ofExcept]
  cases hsection : section? s target with
  | error e => exact nofun
  | ok found =>
      rcases section?_cases hsection with ⟨refusal, rfl, hrefusal⟩ | ⟨g, rfl, hfound, hg⟩
      · exact not_ok_of_isRefusal hrefusal
      · exact hw g hfound hg

theorem addChild_receives (hs : s.IsSound .json) (hfield : field.IsJson) :
    (addChild target field).Ends s fun r t => ∀ o, r = .ok o → o.ok = true →
      s.Receives field t target ∧ t.lastChange = .ok (addedLines field) := by
  unfold addChild
  rw [ends_bind, ends_get, andThen_ok]
  refine inSection_succeeds fun g hfound hg => ?_
  cases hshape : malformed? field with
  | some refusal => exact not_ok_of_isRefusal (isRefusal_malformed? hshape)
  | none =>
      exact commitChecked_receives hs ⟨hfield, malformed?_eq_none_iff.1 hshape⟩
        (.inr ⟨g, hfound, hg, rfl⟩) _ _

/-- A copy of what is on the clipboard is put where it fits and is what is told of. -/
private theorem freshCopy_receives (hs : s.IsSound .json) (hcontent : content.IsJson ∧ content.Fits)
    {w : Value → Editing Outcome} {fields : Value → List Value}
    (hw : ∀ copy, w copy = commitChecked (fields copy) "paste" (copy.getOrNull "id"))
    (hfields : ∀ copy, (target.isNull = true ∧ fields copy = rootFields s.schema ++ [copy]) ∨
      ∃ g, s.find? target = some g ∧ g.isSection = true ∧
        fields copy = Forest.insertChild target copy s.forest) :
    (freshCopy content >>= w).Ends s fun r t => ∀ o, r = .ok o → o.ok = true →
      ∃ copy, s.Receives copy t target ∧ t.lastChange = .ok (addedLines copy) := by
  rw [ends_bind]
  refine (freshCopy_draws hs hcontent).mono fun r t ⟨q, ht, hr⟩ => ?_
  subst ht
  cases r with
  | error e => exact nofun
  | ok copy =>
      obtain ⟨hcopy, taken, hcopied⟩ := hr
      have hu : (s.withSupply q).IsSound .json :=
        hs.becomes ⟨rfl, rfl, rfl, hcopied.names.follows⟩ hs.schema hs.snapshots
      rw [andThen_ok, hw]
      refine (commitChecked_receives hu hcopy (hfields copy) _ _).mono fun r t h o ho hok => ?_
      obtain ⟨hreceives, hlines⟩ := h o ho hok
      refine ⟨copy, ?_, hlines⟩
      cases hreceives with
      | root isNull fields => exact .root isNull fields
      | inside isSection nests => exact .inside isSection ⟨nests.tree, nests.found⟩

theorem paste_receives (hs : s.IsSound .json) (held : s.clipboard = some content) :
    (paste target).Ends s fun r t => ∀ o, r = .ok o → o.ok = true →
      ∃ copy, s.Receives copy t target ∧ t.lastChange = .ok (addedLines copy) := by
  have hcontent := hs.clipboard content held
  unfold paste
  rw [ends_bind, ends_get, andThen_ok, held]
  dsimp only
  split
  · next hnull =>
      refine freshCopy_receives hs hcontent (fun copy => ?_) fun copy => .inl ⟨hnull, rfl⟩
      rw [withRoot, hs.fields_eq]
      rfl
  · refine inSection_succeeds fun g hfound hg => ?_
    exact freshCopy_receives hs hcontent (fun _ => rfl) fun _ => .inr ⟨g, hfound, hg, rfl⟩

theorem removeField_tells (hs : s.IsSound .json) :
    (removeField id).Ends s fun r t => ∀ o, r = .ok o → o.ok = true →
      ∃ f, s.find? id = some f ∧ t.lastChange = .ok (removedLines f.value) := by
  cases hfound : s.find? id with
  | none =>
      unfold removeField
      rw [ends_bind, ends_get, andThen_ok, hfound]
      dsimp only
      rw [ends_ofExcept]
      exact fun o ho => not_ok_of_isRefusal (isRefusal_notFound ho) o rfl
  | some f =>
      rw [ends_removeField hfound]
      split
      · have hu : (s.deselecting f).IsSound .json :=
          hs.becomes (s.deselecting_becomes f) hs.schema hs.snapshots
        have hsound : AreSound .json (Forest.remove id s.forest) :=
          Command.Rewrites.removeField.areSound hs trivial
        refine (commit_committed hu hsound _ _).mono fun r t h o _ _ => ⟨f, rfl, ?_⟩
        obtain ⟨a, b, hplace⟩ := hs.sameAround_remove hfound
        rw [← (s.deselecting_becomes f).schema_eq] at hplace
        exact h.commits.lastChange_removed hu hsound hplace
      · exact nofun

end Editing

theorem Command.Succeeds.of_ends {c : Command} {s t : Store} {w : Editing Outcome}
    {Q : Store → Prop} (hc : c.Succeeds s t) (hrun : c.run = Reply.outcome <$> w)
    (h : w.Ends s fun r t => ∀ o, r = .ok o → o.ok = true → Q t) : Q t := by
  obtain ⟨o, ran, hok⟩ := hc
  have hmap : c.run.Ends s fun r t => ∀ o, r = .ok (.outcome o) → o.ok = true → Q t := by
    rw [hrun]
    refine (ends_map _).2 (h.mono fun r t h o ho hok => ?_)
    cases r with
    | error e => cases ho
    | ok o' => exact h o' rfl (Reply.outcome.inj (Except.ok.inj ho) ▸ hok)
  exact hmap.outcome ran o rfl hok

/-- In a store whose documents JSON can carry, the last change is told right after an edit as follows.
Of a field that was added, or of the copy that was pasted, it says that everything was added that the
field owns, and of a field that was removed, that everything was removed that the field owned: a line
for each, in order. Of a move it says of each of the siblings between the two positions, in their new
order, from which position and to which one it has moved. It says nothing else. -/
theorem Store.Reachable.lastChange_told {s t : Store} {capacity : Value}
    (hs : s.Reachable (fun s c => c.Brings .json s) capacity) :
    (∀ field, field.IsJson → (Command.addField field).Succeeds s t →
      t.lastChange = .ok (addedLines field)) ∧
    (∀ target field, field.IsJson → (Command.addChild target field).Succeeds s t →
      t.lastChange = .ok (addedLines field)) ∧
    (∀ target, s.clipboard.isSome = true → (Command.paste target).Succeeds s t →
      ∃ copy, s.Receives copy t target ∧ t.lastChange = .ok (addedLines copy)) ∧
    (∀ id, (Command.removeField id).Succeeds s t →
      ∃ f, s.find? id = some f ∧ t.lastChange = .ok (removedLines f.value)) ∧
    ∀ owner xs (i j : Nat) r, s.Siblings owner xs → i < xs.length → j < xs.length → i ≠ j →
      (Command.move owner (.int i) (.int j)).run.outcome s = (r, t) →
        t.lastChange = .ok (movedLines xs i j) := by
  have hsound := hs.isSound Value.Domain.isClosed_json fun _ _ h => h
  refine ⟨fun field hfield hc => ?_, fun target field hfield hc => ?_, fun target hsome hc => ?_,
    fun id hc => ?_, fun owner xs i j r h hi hj hij ran => ?_⟩
  · exact (hc.of_ends rfl (Editing.addField_receives hsound hfield)).2
  · exact (hc.of_ends rfl (Editing.addChild_receives hsound hfield)).2
  · obtain ⟨content, held⟩ := Option.isSome_iff_exists.1 hsome
    exact hc.of_ends rfl (Editing.paste_receives hsound held)
  · exact hc.of_ends rfl (Editing.removeField_tells hsound)
  · obtain ⟨hcommits, -⟩ := (Editing.move_commits hsound h hi hj hij).outcome ran
    exact hcommits.lastChange_moved hsound (hsound.areSound_moved h hi hj) hi hj hij
      (hsound.sameAround_withSiblings h _)

theorem Command.succeeds_of_isChange {c : Command} {s : Store}
    (h : Reply.isChange (c.run.outcome s).1 = true) : c.Succeeds s (c.run.outcome s).2 := by
  obtain ⟨o, ho, hok, -⟩ := Reply.exists_of_isChange h
  exact ⟨o, Prod.ext ho rfl, hok⟩

/-- A section with three fields: one is added at the root or to the section, the section is pasted or
removed, or its first field is moved to the end. -/
theorem Store.lastChange_told_of_section :
    let s := Store.bare.after [.addField (.sectionField "a" [.textField "b", .textField "c",
      .textField "d"]), .copy (.text "a")]
    let after (c : Command) : Except Failure (List String) := (c.run.outcome s).2.lastChange
    after (.addField (.textField "e")) = .ok ["Added text field 'e'"] ∧
      after (.addChild (.text "a") (.textField "e")) = .ok ["Added text field 'e'"] ∧
      (∃ copy, after (.paste (.text "a")) = .ok (addedLines copy) ∧
        s.Receives copy ((Command.paste (.text "a")).run.outcome s).2 (.text "a")) ∧
      after (.removeField (.text "a")) = .ok ["Removed section field 'a'", "Removed text field 'b'",
        "Removed text field 'c'", "Removed text field 'd'"] ∧
      after (.moveChild (.text "a") (.int 0) (.int 2)) = .ok ["Moved 'c' from position 1 to 0",
        "Moved 'd' from position 2 to 1", "Moved 'b' from position 0 to 2"] := by
  intro s after
  have edited : s.Reachable (fun s c => c.Brings .json s) (.int 2) := by
    refine Store.reachable_of_brings ?_
    simp only [List.forall_mem_cons]
    refine ⟨fun _ => Value.sectionField_isIn "a" ?_, fun _ => trivial, List.forall_mem_nil _⟩
    simp only [List.forall_mem_cons]
    exact ⟨Value.textField_isIn "b", Value.textField_isIn "c", Value.textField_isIn "d",
      List.forall_mem_nil _⟩
  have hadded : addedLines (.textField "e") = ["Added text field 'e'"] := by decide +kernel
  refine ⟨?_, ?_, ?_, ?_, ?_⟩
  · rw [← hadded]
    exact (Store.Reachable.lastChange_told edited).1 _ (Value.textField_isIn "e")
      (Command.succeeds_of_isChange (by decide +kernel))
  · rw [← hadded]
    exact (Store.Reachable.lastChange_told edited).2.1 _ _ (Value.textField_isIn "e")
      (Command.succeeds_of_isChange (by decide +kernel))
  · obtain ⟨copy, hreceives, hlines⟩ := (Store.Reachable.lastChange_told edited).2.2.1 (.text "a")
      (by decide +kernel) (Command.succeeds_of_isChange (by decide +kernel))
    exact ⟨copy, hlines, hreceives⟩
  · have hremoved : (s.find? (.text "a")).map (fun f => removedLines f.value) =
        some ["Removed section field 'a'", "Removed text field 'b'", "Removed text field 'c'",
          "Removed text field 'd'"] := by decide +kernel
    obtain ⟨f, hfound, hlines⟩ := (Store.Reachable.lastChange_told edited).2.2.2.1 (.text "a")
      (Command.succeeds_of_isChange (by decide +kernel))
    rw [hfound] at hremoved
    exact hlines.trans (congrArg Except.ok (Option.some.inj hremoved))
  · have hfound : (s.find? (.text "a")).map (fun g => (g.isSection, g.children.length,
        movedLines (Forest.toValues g.children) 0 2)) =
          some (true, 3, ["Moved 'c' from position 1 to 0", "Moved 'd' from position 2 to 1",
            "Moved 'b' from position 0 to 2"]) := by decide +kernel
    obtain ⟨g, found, hg⟩ := Option.map_eq_some_iff.1 hfound
    obtain ⟨hsection, hlength, hlines⟩ := Prod.mk.inj hg |>.imp_right Prod.mk.inj
    have hthree : (Forest.toValues g.children).length = 3 := (List.length_map _).trans hlength
    have htold := (Store.Reachable.lastChange_told edited).2.2.2.2 (some (.text "a"))
      (Forest.toValues g.children) 0 2 _ (.children found hsection) (by omega) (by omega) (by decide) rfl
    rwa [hlines] at htold

end FormDesigner
