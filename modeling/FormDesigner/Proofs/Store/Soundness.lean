import FormDesigner.Proofs.Schema.Document
import FormDesigner.Proofs.Store.Course

/-!
# Sound stores

A store is sound if its schema is, if every snapshot of its history can be restored to a sound
schema, and if a field that fits is on its clipboard or nothing at all. Edits check what they put
into the tree and otherwise only remove and rearrange, snapshots are texts of sound schemas, and a
stored state is checked before it is taken over. So every command keeps a store sound, whatever
comes of it.
-/

namespace FormDesigner

open Value (IsIn Domain Fits gathered nodes)
open FormDesigner.Field (ofValue)

/-- A domain that sound schemas do not leave: it has the version of schemas and, if any, the one
number that is read for all those that are no number. -/
structure Value.Domain.IsClosed (D : Domain) : Prop where
  version : D.node (.int 1)
  nan : ∀ a, D.node (.float (.nan a)) → D.node (.float (.nan 0))

theorem Value.Domain.isClosed_anything : Domain.anything.IsClosed := ⟨trivial, fun _ _ => trivial⟩

theorem Value.Domain.isClosed_json : Domain.json.IsClosed :=
  ⟨Value.isSome_integerText? (by decide), fun _ h => by cases h⟩

/-- A snapshot can be restored to a sound schema. -/
structure Snapshot.IsSound (D : Domain) (u : Snapshot) : Prop where
  schema : ∃ schema, u.restore = .ok schema ∧ Schema.IsSound D schema
  label : u.label.IsIn D
  takenAt : u.takenAt.IsIn D

namespace Store

structure IsSound (D : Domain) (s : Store) : Prop where
  schema : Schema.IsSound D s.schema
  snapshots : ∀ u ∈ s.history.snapshots, u.IsSound D
  clipboard : ∀ v ∈ s.clipboard, v.IsIn D ∧ v.Fits
  supply : s.host.supply.GivesIds

end Store

theorem Schema.IsSound.proper {D : Domain} {schema : Value} (h : Schema.IsSound D schema) :
    Schema.IsSound .anything schema :=
  ⟨h.isIn.isProper, h.shape, h.ids, h.keys⟩

/-- A sound store is sound whatever values it may hold. -/
theorem Store.IsSound.proper {D : Domain} {s : Store} (hs : s.IsSound D) : s.IsSound .anything := by
  refine ⟨hs.schema.proper, fun u hu => ?_, fun v hv => ?_, hs.supply⟩
  · obtain ⟨⟨schema, hrestore, hschema⟩, hlabel, htaken⟩ := hs.snapshots u hu
    exact ⟨⟨schema, hrestore, hschema.proper⟩, hlabel.isProper, htaken.isProper⟩
  · exact ⟨(hs.clipboard v hv).1.isProper, (hs.clipboard v hv).2⟩

variable {D : Domain} {s t : Store} {c : Command}

/-- What a command brings into a store from outside is in a domain. -/
def Command.Brings (D : Domain) (s : Store) : Command → Prop
  | .addField field | .addChild _ field => field.IsIn D
  | .updateField _ patch => patch.IsIn D
  | .importSchema document => ∀ schema, Schema.parse document = .ok schema → schema.IsIn D
  | .restore => ∀ storage state now stored, s.storage = some storage →
      storage.load s.host.disk = .ok (some state) →
        StoredState.read now s.history.capacity state = .ok stored →
          stored.schema.IsIn D ∧
            ∀ u ∈ stored.history.snapshots, u.label.IsIn D ∧ u.takenAt.IsIn D ∧
              ∀ schema, u.restore = .ok schema → schema.IsIn D
  | _ => True

namespace Store

/-! ### The tree of a sound store -/

theorem forest_eq (s : Store) : s.forest = (Schema.rootFields s.schema).map ofValue :=
  Schema.forest_eq s.schema

theorem rootFields_of_fields {fs : List Value} (h : s.fields = .list fs) :
    Schema.rootFields s.schema = fs := by
  rw [Schema.rootFields, show s.schema.getOrNull "fields" = .list fs from h]
  rfl

theorem IsSound.fields (hs : s.IsSound D) :
    ∀ x ∈ Schema.rootFields s.schema, x.IsIn D ∧ x.Fits := fun x hx =>
  ⟨Schema.isIn_rootFields hs.schema.isIn x hx, hs.schema.shape.fits x hx⟩

theorem isInherited_sound (D : Domain) : Value.IsInherited fun v => v.IsIn D ∧ v.Fits :=
  (Value.isInherited_isIn D).and Value.isInherited_fits

theorem IsSound.nodes (hs : s.IsSound D) {w : Value}
    (hw : w ∈ (Schema.rootFields s.schema).flatMap Value.nodes) : w.IsIn D ∧ w.Fits := by
  obtain ⟨x, hx, hw⟩ := List.mem_flatMap.1 hw
  exact (isInherited_sound D).nodes (hs.fields x hx) w hw

theorem IsSound.find? (hs : s.IsSound D) {id : Value} {f : Field} (h : s.find? id = some f) :
    ∃ w ∈ (Schema.rootFields s.schema).flatMap Value.nodes,
      (w.getOrNull "id").equals id = true ∧ f = ofValue w ∧ w.IsIn D ∧ w.Fits := by
  rw [Store.find?, forest_eq] at h
  obtain ⟨w, hw, hid, rfl⟩ := Forest.find?_eq_some h
  exact ⟨w, hw, hid, rfl, hs.nodes hw⟩

/-- Fields are found by texts alone. -/
theorem IsSound.exists_text (hs : s.IsSound D) {id : Value} {f : Field} (h : s.find? id = some f) :
    ∃ n, id = .text n := by
  obtain ⟨w, -, hid, -, -, hw⟩ := hs.find? h
  obtain ⟨n, -, hn⟩ := hw.id
  rw [hn] at hid
  exact ⟨n, Value.equals_text_iff.1 hid⟩

end Store

/-! ### What edits check -/

namespace Editing

theorem malformed?_eq_none_iff {field : Value} : malformed? field = none ↔ field.Fits := by
  rw [← fieldProblems_eq_nil_iff, malformed?]
  simp

theorem nodup_of_clash? {fields : List Value} (hfits : ∀ x ∈ fields, x.Fits)
    (h : clash? fields = .ok none) :
    (fields.flatMap (gathered "id")).Nodup ∧ (fields.flatMap (gathered "key")).Nodup := by
  have htext : ∀ n, n = "id" ∨ n = "key" → ∀ w ∈ fields.flatMap (gathered n), ∃ s, w = .text s := by
    intro n hn w hw
    obtain ⟨x, hx, hw⟩ := List.mem_flatMap.1 hw
    exact (hfits x hx).gathered_text hn w hw
  unfold clash? at h
  dsimp only at h
  rw [Forest.ofValues_eq_map, Forest.ids_map, Forest.keys_map] at h
  split at h
  · obtain ⟨_, -, h⟩ := Result.bind_eq_ok.1 h
    cases h
  · rename_i hids
    split at h
    · obtain ⟨_, -, h⟩ := Result.bind_eq_ok.1 h
      cases h
    · rename_i hkeys
      exact ⟨(duplicates_eq_nil_iff (htext "id" (.inl rfl))).1 hids,
        (duplicates_eq_nil_iff (htext "key" (.inr rfl))).1 hkeys⟩

end Editing

/-! ### What commands put in place -/

namespace Command

open Editing (malformed?_eq_none_iff nodup_of_clash?)

/-- Fields that can be those of a sound schema. -/
structure AreSound (D : Domain) (fields : List Value) : Prop where
  each : ∀ x ∈ fields, x.IsIn D ∧ x.Fits
  ids : (fields.flatMap (gathered "id")).Nodup
  keys : (fields.flatMap (gathered "key")).Nodup

theorem AreSound.of_clash? {fields : List Value} (each : ∀ x ∈ fields, x.IsIn D ∧ x.Fits)
    (h : Editing.clash? fields = .ok none) : AreSound D fields :=
  have hnodup := nodup_of_clash? (fun x hx => (each x hx).2) h
  ⟨each, hnodup.1, hnodup.2⟩

theorem AreSound.of_perm {fields fields' : List Value} (h : AreSound D fields)
    (each : ∀ x ∈ fields', x.IsIn D ∧ x.Fits)
    (hperm : ∀ n, n ≠ "children" →
      (fields'.flatMap (gathered n)).Perm (fields.flatMap (gathered n))) : AreSound D fields' :=
  ⟨each, (hperm "id" (by decide)).nodup_iff.2 h.ids, (hperm "key" (by decide)).nodup_iff.2 h.keys⟩

theorem areSound_rootFields (hs : s.IsSound D) : AreSound D (Schema.rootFields s.schema) :=
  ⟨hs.fields, hs.schema.ids, hs.schema.keys⟩

/-- A copy of what is on the clipboard of a sound store can be put anywhere. -/
private theorem freshCopy_sound (hs : s.IsSound D) {content field : Value}
    (held : s.clipboard = some content)
    (made : (Editing.freshCopy content).outcome s = (.ok field, t)) : field.IsIn D ∧ field.Fits :=
  ((Editing.freshCopy_ends (Factory.isRefreshable_fits hs.supply)
    (hs.clipboard content held)).outcome made).2 field rfl

/-- Commands put only sound fields in the place of sound fields. -/
theorem Rewrites.areSound {fields : List Value} (h : Rewrites s c fields) (hs : s.IsSound D)
    (hc : c.Brings D s) : AreSound D fields := by
  have hroots := areSound_rootFields hs
  have hinherited := Store.isInherited_sound D
  cases h with
  | @addField field fs shape root unique =>
      have hfs := Store.rootFields_of_fields root ▸ hs.fields
      refine .of_clash? (List.forall_mem_append.2 ⟨hfs, ?_⟩) unique
      exact List.forall_mem_singleton.2 ⟨hc, malformed?_eq_none_iff.1 shape⟩
  | @addChild target field shape unique =>
      refine .of_clash? ?_ unique
      rw [Store.forest_eq]
      exact Forest.insertChild_inherited hinherited ⟨hc, malformed?_eq_none_iff.1 shape⟩ hs.fields
  | @updateField id updated patch f t found made shape unique =>
      obtain ⟨w, -, -, rfl, hw, -⟩ := hs.find? found
      rw [Field.value_ofValue] at made
      have hupdated : updated.IsIn D :=
        ((Editing.patched_ends D w patch).outcome made).2 updated rfl hw hc
      refine .of_clash? ?_ unique
      rw [Store.forest_eq]
      exact Forest.replace_inherited hinherited ⟨hupdated, malformed?_eq_none_iff.1 shape⟩ hs.fields
  | @removeField id =>
      rw [Store.forest_eq]
      refine ⟨Forest.remove_inherited hinherited hs.fields, ?_, ?_⟩
      · exact hroots.ids.sublist (Forest.gathered_remove (by decide) id _)
      · exact hroots.keys.sublist (Forest.gathered_remove (by decide) id _)
  | @moveField source target i j source_lt target_lt =>
      rw [Store.forest_eq, List.length_map] at source_lt target_lt
      rw [Store.forest_eq, Forest.toValues_map_ofValue]
      have hperm := Forest.moved_perm (Schema.rootFields s.schema) source_lt target_lt
      refine hroots.of_perm (fun x hx => hs.fields x (hperm.mem_iff.1 hx)) fun n _ => ?_
      exact hperm.flatMap_right _
  | @moveChild owner source target f i j found isSection source_lt target_lt =>
      obtain ⟨w, hw, hid, rfl, hwIn, hwFits⟩ := hs.find? found
      rw [Field.children_ofValue, List.length_map] at source_lt target_lt
      rw [Store.forest_eq, Field.children_ofValue, Forest.toValues_map_ofValue]
      have hperm := Forest.moved_perm w.childValues source_lt target_lt
      refine hroots.of_perm ?_ fun n hn => ?_
      · refine Forest.replaceChildren_inherited hinherited (fun x hx => ?_) hs.fields
        exact hinherited.children ⟨hwIn, hwFits⟩ x (hperm.mem_iff.1 hx)
      · refine Forest.gathered_replaceChildren hn owner _ _ fun u hu huid _ => ?_
        -- The section that was found is the only one with its id.
        have hone := Forest.eq_of_hasId (fun x hx => (hs.fields x hx).2) hroots.ids hw hu hid huid
        exact hone ▸ hperm
  | @pasteRoot content field fs target t held made root unique =>
      have hfs := Store.rootFields_of_fields root ▸ hs.fields
      refine .of_clash? (List.forall_mem_append.2 ⟨hfs, ?_⟩) unique
      exact List.forall_mem_singleton.2 (freshCopy_sound hs held made)
  | @pasteChild content field target t held made unique =>
      refine .of_clash? ?_ unique
      rw [Store.forest_eq]
      exact Forest.insertChild_inherited hinherited (freshCopy_sound hs held made) hs.fields

theorem Replaces.isSound {schema : Value} (h : Replaces s c schema) (hs : s.IsSound D)
    (hc : c.Brings D s) : Schema.IsSound D schema := by
  cases h with
  | rewrites h =>
      have hfields := h.areSound hs hc
      exact hs.schema.put_fields hfields.each hfields.ids hfields.keys
  | importSchema loaded =>
      obtain ⟨hparse, hproblems⟩ := Schema.load_eq_ok_iff.1 loaded
      exact Schema.isSound_of_problems (hc _ hparse) hproblems

end Command

namespace Store.IsSound

/-- A sound store that gets another sound schema and history is sound. -/
theorem becomes (hs : s.IsSound D) {schema : Value} {history : History}
    (h : s.Becomes schema history t) (hschema : Schema.IsSound D schema)
    (hsnapshots : ∀ u ∈ history.snapshots, u.IsSound D) : t.IsSound D where
  schema := h.schema_eq ▸ hschema
  snapshots := h.history_eq ▸ hsnapshots
  clipboard := h.clipboard_eq ▸ hs.clipboard
  supply := hs.supply.follows h.supply

/-- A snapshot of a sound schema holds a sound schema. -/
theorem captured (hD : D.IsClosed) (hs : s.IsSound D) {now : String} {label : Value} {u : Snapshot}
    (hlabel : label.IsIn D) (h : Snapshot.capture now s.schema label = .ok u) : u.IsSound D := by
  obtain ⟨htext, rfl, htaken⟩ := Snapshot.of_capture h
  refine ⟨⟨Json.image true s.schema, hs.schema.parse_exportText htext, ?_⟩, hlabel, ?_⟩
  · exact hs.schema.image true hD.nan
  · rw [htaken]
    exact .text now

/-- A schema that JSON can carry can be noted. -/
theorem exists_captured (hs : s.IsSound .json) (now : String) (label : Value) :
    ∃ u, Snapshot.capture now s.schema label = .ok u := by
  obtain ⟨text, htext⟩ := Json.exists_write .canonical hs.schema.isIn
  obtain ⟨u, hu, -⟩ := Snapshot.exists_capture htext now label
  exact ⟨u, hu⟩

/-- The snapshot that a step goes to can be restored. -/
theorem restore_ne_error (hs : s.IsSound D) {side : History.Side} {u : Snapshot} {e : Failure}
    (found : s.history.nearest side = some u) : u.restore ≠ .error e := by
  obtain ⟨schema, hrestore, -⟩ := (hs.snapshots u (History.mem_snapshots_of_nearest found)).schema
  rw [hrestore]
  nofun

end Store.IsSound

/-! ### Stored states -/

namespace StoredState

variable {now : String} {capacity : Capacity} {state : Value} {stored : StoredState}

theorem read_eq_ok (h : read now capacity state = .ok stored) :
    ∃ source history, state.entry "schema" = .ok source ∧ Schema.load source = .ok stored.schema ∧
      (history = state.getOrNull "history" ∨ history = .map []) ∧
        History.ofValue now capacity history = .ok stored.history ∧
          ∀ u ∈ stored.history.snapshots, checkSnapshot u = .ok () := by
  unfold read at h
  obtain ⟨source, hsource, h⟩ := Result.bind_eq_ok.1 h
  obtain ⟨schema, hschema, h⟩ := Result.bind_eq_ok.1 h
  obtain ⟨history, hhistory, h⟩ := Result.bind_eq_ok.1 h
  obtain ⟨⟨⟩, hchecked, h⟩ := Result.bind_eq_ok.1 h
  obtain rfl := Except.ok.inj h
  refine ⟨source, _, hsource, hschema, ?_, hhistory, Result.forM_eq_ok.1 hchecked⟩
  split
  · exact .inl rfl
  · exact .inr rfl

theorem checkSnapshot_eq_ok {u : Snapshot} (h : checkSnapshot u = .ok ()) :
    ∃ schema, u.restore = .ok schema ∧ Schema.problems schema = .ok [] := by
  obtain ⟨schema, hschema, h⟩ := Result.bind_eq_ok.1 h
  obtain ⟨found, hfound, h⟩ := Result.bind_eq_ok.1 h
  cases found with
  | nil => exact ⟨schema, hschema, hfound⟩
  | cons p ps => cases h

end StoredState

/-! ### Steps -/

theorem Command.Turns.isSound {side : History.Side} {r : Except Failure Reply}
    (h : Command.Turns s side r t) (hD : D.IsClosed) (hs : s.IsSound D) : t.IsSound D := by
  have hleft : ∀ {now : String} {label : Value} {noted : Snapshot}, label.IsIn D →
      Snapshot.capture now s.schema label = .ok noted →
        ∀ u ∈ ((s.history.without side).leaving side noted).snapshots, u.IsSound D := by
    intro now label noted hlabel captured u hu
    rcases History.mem_snapshots_leaving hu with rfl | hu
    · exact hs.captured hD hlabel captured
    · exact hs.snapshots u (History.mem_snapshots_of_without hu)
  cases h with
  | atEnd => exact hs
  | turned found captured restored becomes =>
      have hnearest := hs.snapshots _ (History.mem_snapshots_of_nearest found)
      obtain ⟨schema, hschema, hsound⟩ := hnearest.schema
      obtain rfl := Except.ok.inj (hschema.symm.trans restored)
      exact hs.becomes becomes hsound (hleft hnearest.label captured)
  | unread found captured _ becomes =>
      have hnearest := hs.snapshots _ (History.mem_snapshots_of_nearest found)
      exact hs.becomes becomes hs.schema (hleft hnearest.label captured)
  | unwritten found _ becomes =>
      exact hs.becomes becomes hs.schema fun u hu =>
        hs.snapshots u (History.mem_snapshots_of_without hu)

/-- Whatever a command does to a sound store, and whether or not it fails, the store is sound after
it. -/
theorem Command.Course.isSound {r : Except Failure Reply} (h : c.Course s r t) (hD : D.IsClosed)
    (hs : s.IsSound D) (hc : c.Brings D s) : t.IsSound D := by
  cases h with
  | refused follows => exact hs.becomes ⟨rfl, rfl, rfl, follows⟩ hs.schema hs.snapshots
  | copied found =>
      obtain ⟨w, -, -, rfl, hw⟩ := hs.find? found
      refine ⟨hs.schema, hs.snapshots, fun v hv => ?_, hs.supply⟩
      rw [Field.value_ofValue, Clipboard.holding] at hv
      split at hv
      · cases hv
      · exact Option.some.inj hv ▸ hw
  | aside kept => exact hs.becomes kept hs.schema hs.snapshots
  | committed replaces captured becomes =>
      refine hs.becomes becomes (replaces.isSound hs hc) fun u hu => ?_
      rcases History.mem_snapshots_pushPast (History.mem_snapshots_withoutFuture hu) with rfl | hu
      · exact hs.captured hD (.text _) captured
      · exact hs.snapshots u hu
  | turned turns => exact turns.isSound hD hs
  | restored kept loaded read =>
      obtain ⟨hschema, hsnapshots⟩ := hc _ _ _ _ kept loaded read
      obtain ⟨_, _, _, load, -, -, checked⟩ := StoredState.read_eq_ok read
      refine ⟨Schema.isSound_of_problems hschema (Schema.load_eq_ok_iff.1 load).2, ?_, hs.clipboard,
        hs.supply⟩
      intro u hu
      obtain ⟨schema, hrestore, hproblems⟩ := StoredState.checkSnapshot_eq_ok (checked u hu)
      obtain ⟨hlabel, htaken, hin⟩ := hsnapshots u hu
      exact ⟨⟨schema, hrestore, Schema.isSound_of_problems (hin schema hrestore) hproblems⟩, hlabel,
        htaken⟩
  | emptied =>
      refine ⟨Schema.isSound_empty hD.version, fun u hu => ?_, hs.clipboard, hs.supply⟩
      exact absurd hu List.not_mem_nil

theorem Command.Course.capacity_eq {r : Except Failure Reply} (h : c.Course s r t) :
    t.history.capacity = s.history.capacity := by
  cases h with
  | refused | copied | emptied => rfl
  | aside kept => rw [kept.history_eq]
  | committed _ _ becomes => rw [becomes.history_eq]; rfl
  | turned turns =>
      cases turns with
      | atEnd => rfl
      | turned _ _ _ becomes | unread _ _ _ becomes =>
          rw [becomes.history_eq, History.capacity_leaving, History.capacity_without]
      | unwritten _ _ becomes => rw [becomes.history_eq, History.capacity_without]
  | restored _ _ read =>
      obtain ⟨_, _, -, -, -, hhistory, -⟩ := StoredState.read_eq_ok read
      exact History.capacity_ofValue hhistory

end FormDesigner
