import FormDesigner.Proofs.Field.Factory
import FormDesigner.Proofs.Result
import FormDesigner.Proofs.Store.History
import FormDesigner.Proofs.Store.Saving
import FormDesigner.Store.Command

/-!
# The course of a command

What a command can do to a store is told by `Course`, with everything that has been checked by then.
A command that is refused leaves the store as it was but for the names that it has used up. One that
goes through notes the present schema in the history and puts another in its place, or steps to a
snapshot. Work that fails may have got some of the way. What all commands have in common is proved
from these cases.
-/

namespace FormDesigner

open Work

namespace Store

/-- A store that has used up names. -/
def withSupply (s : Store) (supply : Supply) : Store := { s with host := { s.host with supply } }

/-- A store gets another schema and history and keeps its clipboard. What is selected, saved and
announced on the way is left open. -/
structure Becomes (s : Store) (schema : Value) (history : History) (t : Store) : Prop where
  schema_eq : t.schema = schema
  history_eq : t.history = history
  clipboard_eq : t.clipboard = s.clipboard
  supply : s.host.supply.Follows t.host.supply

end Store

/-- An edit is refused: something is wrong, and nothing was changed. -/
structure Outcome.IsRefusal (o : Outcome) : Prop where
  ok : o.ok = false
  changed : o.changed = false

/-- Whether a command says that it has changed the document. -/
def Reply.changed : Reply → Bool
  | .outcome o => o.changed
  | .value _ => false

namespace Command

open Editing (malformed? clash?)

/-- The fields that a command may put in the place of those of a store. -/
inductive Rewrites (s : Store) : Command → List Value → Prop
  | addField {field : Value} {fs : List Value} (shape : malformed? field = none)
      (root : s.fields = .list fs) (unique : clash? (fs ++ [field]) = .ok none) :
      Rewrites s (.addField field) (fs ++ [field])
  | addChild {target field : Value} (shape : malformed? field = none)
      (unique : clash? (Forest.insertChild target field s.forest) = .ok none) :
      Rewrites s (.addChild target field) (Forest.insertChild target field s.forest)
  | updateField {id updated : Value} {patch : Entries} {f : Field} {t : Store}
      (found : s.find? id = some f)
      (made : (Editing.patched f.value patch).outcome s = (.ok updated, t))
      (shape : malformed? updated = none)
      (unique : clash? (Forest.replace id updated s.forest) = .ok none) :
      Rewrites s (.updateField id (.map patch)) (Forest.replace id updated s.forest)
  | removeField {id : Value} : Rewrites s (.removeField id) (Forest.remove id s.forest)
  | moveField {source target : Value} {i j : Nat} (source_lt : i < s.forest.length)
      (target_lt : j < s.forest.length) :
      Rewrites s (.moveField source target) (moved s.forest.toValues i j)
  | moveChild {owner source target : Value} {f : Field} {i j : Nat}
      (found : s.find? owner = some f) (isSection : f.isSection = true)
      (source_lt : i < f.children.length) (target_lt : j < f.children.length) :
      Rewrites s (.moveChild owner source target)
        (Forest.replaceChildren owner (moved (Forest.toValues f.children) i j) s.forest)
  | pasteRoot {content field : Value} {fs : List Value} {target : Value} {t : Store}
      (held : s.clipboard = some content)
      (made : (Editing.freshCopy content).outcome s = (.ok field, t))
      (root : s.fields = .list fs) (unique : clash? (fs ++ [field]) = .ok none) :
      Rewrites s (.paste target) (fs ++ [field])
  | pasteChild {content field target : Value} {t : Store}
      (held : s.clipboard = some content)
      (made : (Editing.freshCopy content).outcome s = (.ok field, t))
      (unique : clash? (Forest.insertChild target field s.forest) = .ok none) :
      Rewrites s (.paste target) (Forest.insertChild target field s.forest)

/-- The schemas that a command may put in the place of that of a store. -/
inductive Replaces (s : Store) : Command → Value → Prop
  | rewrites {c : Command} {fields : List Value} (h : Rewrites s c fields) :
      Replaces s c (s.schema.put "fields" (.list fields))
  | importSchema {document schema : Value} (loaded : Schema.load document = .ok schema) :
      Replaces s (.importSchema document) schema

/-- Undo and redo by the side that they step to. -/
def turn : History.Side → Command
  | .past => .undo
  | .future => .redo

/-- What a step to a side can answer, and what it can leave of a store. -/
inductive Turns (s : Store) (side : History.Side) : Except Failure Reply → Store → Prop
  | atEnd {o : Outcome} (found : s.history.nearest side = none) (unchanged : o.changed = false) :
      Turns s side (.ok (.outcome o)) s
  | turned {r : Except Failure Reply} {t : Store} {schema : Value} {host : Host}
      {nearest noted : Snapshot} (found : s.history.nearest side = some nearest)
      (captured : Snapshot.capture host.timestamp s.schema nearest.label = .ok noted)
      (restored : nearest.restore = .ok schema)
      (becomes : s.Becomes schema ((s.history.without side).leaving side noted) t)
      (changed : ∀ a, r = .ok a → a.changed = true) (saved : t.IsUpToDate) :
      Turns s side r t
  | unread {e e' : Failure} {t : Store} {host : Host} {nearest noted : Snapshot}
      (found : s.history.nearest side = some nearest)
      (captured : Snapshot.capture host.timestamp s.schema nearest.label = .ok noted)
      (unread : nearest.restore = .error e)
      (becomes : s.Becomes s.schema ((s.history.without side).leaving side noted) t) :
      Turns s side (.error e') t
  | unwritten {e e' : Failure} {t : Store} {host : Host} {nearest : Snapshot}
      (found : s.history.nearest side = some nearest)
      (unwritten : Snapshot.capture host.timestamp s.schema nearest.label = .error e)
      (becomes : s.Becomes s.schema (s.history.without side) t) :
      Turns s side (.error e') t

/-- What a command can answer, and what it can leave of a store. -/
inductive Course (s : Store) : Command → Except Failure Reply → Store → Prop
  | refused {c : Command} {r : Except Failure Reply} {supply : Supply}
      (follows : s.host.supply.Follows supply)
      (unchanged : ∀ a, r = .ok a → a.changed = false) :
      Course s c r (s.withSupply supply)
  | copied {id : Value} {f : Field} {o : Outcome} (found : s.find? id = some f)
      (unchanged : o.changed = false) :
      Course s (.copy id) (.ok (.outcome o)) { s with clipboard := Clipboard.holding f.value }
  | aside {c : Command} {r : Except Failure Reply} {t : Store}
      (kept : s.Becomes s.schema s.history t) (noOutcome : ∀ o, r ≠ .ok (.outcome o))
      (cause : (∃ id, c = .select id ∧ (t = s ∨ t.IsUpToDate)) ∨ ∃ e, s.exportText = .error e) :
      Course s c r t
  | committed {c : Command} {r : Except Failure Reply} {t : Store} {schema : Value}
      {host : Host} {label : String} {noted : Snapshot} (replaces : Replaces s c schema)
      (captured : Snapshot.capture host.timestamp s.schema (.text label) = .ok noted)
      (becomes : s.Becomes schema (s.history.pushPast noted).withoutFuture t)
      (changed : ∀ a, r = .ok a → a.changed = true) (saved : t.IsUpToDate) :
      Course s c r t
  | turned {side : History.Side} {r : Except Failure Reply} {t : Store} (turns : Turns s side r t) :
      Course s (turn side) r t
  | restored {r : Except Failure Reply} {storage : Storage} {state : Value}
      {stored : StoredState} (kept : s.storage = some storage)
      (loaded : storage.load s.host.disk = .ok (some state))
      (read : StoredState.read s.host.timestamp s.history.capacity state = .ok stored)
      (noOutcome : ∀ o, r ≠ .ok (.outcome o)) :
      Course s .restore r (s.withState stored)
  | emptied {r : Except Failure Reply} {storage : Storage} {state : Value} {e : Failure}
      (noOutcome : ∀ o, r ≠ .ok (.outcome o)) (kept : s.storage = some storage)
      (loaded : storage.load s.host.disk = .ok (some state))
      (unread : StoredState.read s.host.timestamp s.history.capacity state = .error e)
      (unusable : StoredState.isUnusable e = true) :
      Course s .restore r s.emptied

/-- The course of work that answers with an outcome. -/
def EditCourse (s : Store) (c : Command) (r : Except Failure Outcome) (t : Store) : Prop :=
  Course s c (r.map .outcome) t

end Command

namespace Store.Becomes

theorem refl (s : Store) : s.Becomes s.schema s.history s := ⟨rfl, rfl, rfl, .refl _⟩

end Store.Becomes

namespace Command.EditCourse

variable {s : Store} {c : Command} {supply : Supply}

theorem error (follows : s.host.supply.Follows supply) (e : Failure) :
    EditCourse s c (.error e) (s.withSupply supply) :=
  Course.refused follows fun _ h => by cases h

theorem ok (follows : s.host.supply.Follows supply) {o : Outcome} (ho : o.changed = false) :
    EditCourse s c (.ok o) (s.withSupply supply) :=
  Course.refused follows fun _ h => Except.ok.inj h ▸ ho

end Command.EditCourse

namespace Editing

open Command (Rewrites Replaces Course EditCourse)

variable {s u : Store} {c : Command} {schema old : Value} {history : History} {supply : Supply}

/-! ### Refusals -/

theorem isRefusal_notFound {id : Value} {o : Outcome} (h : notFound id = .ok o) :
    o.IsRefusal := by
  obtain ⟨_, -, h⟩ := Result.bind_eq_ok.1 h
  exact Except.ok.inj h ▸ ⟨rfl, rfl⟩

theorem isRefusal_outOfRange {size : Nat} {index owner : Value} {o : Outcome}
    (h : outOfRange size index owner = .ok o) : o.IsRefusal := by
  unfold outOfRange at h
  split at h
  · exact Except.ok.inj h ▸ ⟨rfl, rfl⟩
  · obtain ⟨_, -, h⟩ := Result.bind_eq_ok.1 h
    exact Except.ok.inj h ▸ ⟨rfl, rfl⟩

theorem isRefusal_malformed? {field : Value} {o : Outcome} (h : malformed? field = some o) :
    o.IsRefusal := by
  unfold malformed? at h
  dsimp only at h
  split at h
  · cases h
  · exact Option.some.inj h ▸ ⟨rfl, rfl⟩

theorem isRefusal_clash? {fields : List Value} {o : Outcome} (h : clash? fields = .ok (some o)) :
    o.IsRefusal := by
  unfold clash? at h
  dsimp only at h
  split at h
  · obtain ⟨_, -, h⟩ := Result.bind_eq_ok.1 h
    exact Option.some.inj (Except.ok.inj h) ▸ ⟨rfl, rfl⟩
  · split at h
    · obtain ⟨_, -, h⟩ := Result.bind_eq_ok.1 h
      exact Option.some.inj (Except.ok.inj h) ▸ ⟨rfl, rfl⟩
    · cases h

theorem isRefusal_refusedPatch? {id field patch : Value} {o : Outcome}
    (h : refusedPatch? id field patch = .ok (some o)) : o.IsRefusal := by
  unfold refusedPatch? at h
  have hrest : ∀ type : Value, (do
      if (FieldType.ofValue? type).isNone then
        return some (Outcome.failure .invalidPatch
          ("Unsupported field type '" ++ (← type.plain) ++ "'") id [])
      return none) = Except.ok (ε := Failure) (some o) → o.IsRefusal := by
    intro type h
    split at h
    · obtain ⟨_, -, h⟩ := Result.bind_eq_ok.1 h
      exact Option.some.inj (Except.ok.inj h) ▸ ⟨rfl, rfl⟩
    · cases h
  dsimp only at h
  split at h
  · split at h
    · exact Option.some.inj (Except.ok.inj h) ▸ ⟨rfl, rfl⟩
    · exact hrest _ h
  · exact hrest _ h

theorem section?_cases {id : Value} {r : Except Outcome Field} (h : section? s id = .ok r) :
    (∃ o, r = .error o ∧ o.IsRefusal) ∨
      ∃ f, r = .ok f ∧ s.find? id = some f ∧ f.isSection = true := by
  unfold section? at h
  split at h
  · obtain ⟨o, ho, h⟩ := Result.bind_eq_ok.1 h
    exact .inl ⟨o, (Except.ok.inj h).symm, isRefusal_notFound ho⟩
  · rename_i f hfind
    split at h
    · exact .inr ⟨f, (Except.ok.inj h).symm, hfind, ‹_›⟩
    · obtain ⟨_, -, h⟩ := Result.bind_eq_ok.1 h
      exact .inl ⟨_, (Except.ok.inj h).symm, rfl, rfl⟩

theorem position?_lt {size i : Nat} {v : Value} (h : position? size v = some i) : i < size := by
  unfold position? at h
  split at h
  · split at h
    · have := Option.some.inj h
      omega
    · cases h
  · cases h

/-- An answer that is worked out without a change. -/
theorem ends_answer {r : Except Failure Outcome} (hr : ∀ o, r = .ok o → o.changed = false) :
    (Work.ofExcept r).Ends s (EditCourse s c) := by
  rw [ends_ofExcept]
  cases r with
  | error e => exact .error (.refl _) e
  | ok o => exact .ok (.refl _) (hr o rfl)

/-! ### What follows a change -/

theorem ends_onHistory {α : Type} {w : Work History α} {Q : Except Failure α → Store → Prop} :
    (onHistory w).Ends s Q ↔ w.Ends s.history fun r h => Q r { s with history := h } := Iff.rfl

theorem ends_onSupply {α : Type} {w : Minting α} {Q : Except Failure α → Store → Prop} :
    (onSupply w).Ends s Q ↔
      w.Ends s.host.supply fun r supply => Q r (s.withSupply supply) := Iff.rfl

/-- Saving leaves alone all that has nothing to do with the storage and the disk. -/
theorem persist_keeps {I : Store → Prop}
    (hI : ∀ t storage disk, I t → I { t with storage, host := { t.host with disk } }) :
    Keeps I persist fun _ => True := by
  unfold persist
  refine keeps_get.bind fun _ _ => ?_
  split
  · exact keeps_pure trivial
  · refine keeps_get.bind fun _ _ => (keeps_ofExcept fun _ _ => trivial).bind fun _ _ => ?_
    refine (keeps_get.map (S := fun _ => True) fun _ _ => trivial).bind fun now _ => ?_
    have hsave : ∀ w : Work Disk Storage, Keeps I (onDisk w) fun _ => True := fun w =>
      keeps_true.onPart (fun _ _ => trivial) fun t disk ht _ => hI t t.storage disk ht
    refine (hsave _).attempt.bind fun saved _ => ?_
    split
    · exact keeps_modify fun t ht => hI t _ t.host.disk ht
    · exact keeps_pure trivial
    · exact keeps_throw

theorem announce_keeps {I : Store → Prop}
    (hI : ∀ t storage disk notices,
      I t → I { t with storage, notices, host := { t.host with disk } }) :
    Keeps I announce fun _ => True :=
  (persist_keeps fun t storage disk => hI t storage disk t.notices).bind fun _ _ =>
    keeps_modify fun t => hI t t.storage t.host.disk _

theorem announce_ends (hu : s.Becomes schema history u) :
    announce.Ends u fun _ t => s.Becomes schema history t ∧ t.IsUpToDate := by
  have hkeeps : Keeps (s.Becomes schema history) announce fun _ => True :=
    announce_keeps fun _ _ _ _ h => ⟨h.1, h.2, h.3, h.4⟩
  exact ⟨(hkeeps u hu).1, announce_saves⟩

/-- A change that has been made is announced and reported. -/
private theorem announced_ends {o : Outcome} (hu : s.Becomes schema history u)
    (ho : o.changed = true) {Q : Except Failure Outcome → Store → Prop}
    (hQ : ∀ r t, s.Becomes schema history t → (∀ o, r = .ok o → o.changed = true) →
      t.IsUpToDate → Q r t) :
    (do
      announce
      return o : Editing Outcome).Ends u Q := by
  rw [ends_bind]
  refine (announce_ends hu).mono fun r t ⟨ht, hsaved⟩ => ?_
  cases r with
  | error e => exact hQ _ t ht (fun _ h => by cases h) hsaved
  | ok _ => exact hQ _ t ht (fun _ h => Except.ok.inj h ▸ ho) hsaved

private theorem changed_reply {r : Except Failure Outcome}
    (hr : ∀ o, r = .ok o → o.changed = true) :
    ∀ a, r.map Reply.outcome = .ok a → a.changed = true := by
  intro a h
  obtain ⟨o, ho, rfl⟩ := Result.map_eq_ok.1 h
  exact hr o ho

private theorem noOutcome_error {e : Failure} :
    ∀ o, (Except.error e : Except Failure Outcome).map Reply.outcome ≠ .ok (.outcome o) := by
  intro o h
  cases h

theorem present_ends (clipboard : u.clipboard = s.clipboard)
    (follows : s.host.supply.Follows u.host.supply) (schema : Value) (label : String)
    {Q : Except Failure Outcome → Store → Prop}
    (hQ : ∀ r t, s.Becomes schema u.history t → (∀ o, r = .ok o → o.changed = true) →
      t.IsUpToDate → Q r t) :
    (present schema label).Ends u Q := by
  unfold present
  rw [ends_bind, ends_modify, andThen_ok]
  have hput : s.Becomes schema u.history { u with schema } := ⟨rfl, rfl, clipboard, follows⟩
  exact announced_ends (o := .success label .null) hput rfl hQ

theorem commit_ends {fields : List Value} (hu : s.Becomes s.schema s.history u)
    (h : Rewrites s c fields) (label : String) (id : Value) :
    (commit fields label id).Ends u (EditCourse s c) := by
  unfold commit
  rw [ends_bind, ends_get, andThen_ok, ends_bind, ends_onHistory, History.ends_record]
  cases captured : Snapshot.capture u.host.timestamp u.schema (.text label) with
  | error e =>
      have hexport : s.exportText = .error e := by
        rw [Store.exportText, ← hu.schema_eq]
        exact Snapshot.capture_eq_error_iff.1 captured
      exact .aside hu noOutcome_error (.inr ⟨e, hexport⟩)
  | ok noted =>
      have hput : s.Becomes (s.schema.put "fields" (.list fields))
          (s.history.pushPast noted).withoutFuture
          { u with
            schema := u.schema.put "fields" (.list fields)
            history := (u.history.pushPast noted).withoutFuture } :=
        ⟨by rw [hu.schema_eq], by rw [hu.history_eq], hu.clipboard_eq, hu.supply⟩
      dsimp only
      rw [andThen_ok, ends_bind, ends_modify, andThen_ok]
      refine announced_ends (o := .success label id) hput rfl fun r t ht hr hsaved => ?_
      exact .committed (.rewrites h) (hu.schema_eq ▸ captured) ht (changed_reply hr) hsaved

theorem commitChecked_ends {fields : List Value} (follows : s.host.supply.Follows supply)
    (h : clash? fields = .ok none → Rewrites s c fields) (label : String) (id : Value) :
    (commitChecked fields label id).Ends (s.withSupply supply) (EditCourse s c) := by
  unfold commitChecked
  rw [ends_bind, ends_ofExcept]
  cases hclash : clash? fields with
  | error e => exact .error follows e
  | ok r =>
      cases r with
      | none =>
          refine commit_ends ?_ (h hclash) label id
          exact ⟨rfl, rfl, rfl, follows⟩
      | some o => exact .ok follows (isRefusal_clash? hclash).changed

/-! ### Commands -/

/-- Work that may use up names and changes nothing else. -/
def Mints (s : Store) (P : Value → Prop) (r : Except Failure Value) (t : Store) : Prop :=
  (∃ supply, s.host.supply.Follows supply ∧ t = s.withSupply supply) ∧ ∀ v, r = .ok v → P v

private theorem onSupply_ends {w : Minting Value} {P : Value → Prop}
    (hw : Keeps s.host.supply.Follows w P) : (onSupply w).Ends s (Mints s P) := by
  rw [ends_onSupply]
  exact (hw _ (.refl _)).mono fun r supply ⟨follows, hr⟩ => ⟨⟨supply, follows, rfl⟩, hr⟩

theorem patched_ends (D : Value.Domain) (field : Value) (patch : Entries) :
    (patched field patch).Ends s
      (Mints s fun v => field.IsIn D → (Value.map patch).IsIn D → v.IsIn D) := by
  unfold patched
  dsimp only
  split
  · exact ⟨⟨_, .refl _, rfl⟩, fun v hv hfield hpatch =>
      Except.ok.inj hv ▸ Patch.merge_isIn hfield hpatch⟩
  · rw [ends_bind, ends_get, andThen_ok]
    refine (onSupply_ends (Factory.retype_keeps D _ _ _)).mono fun r t ⟨ht, hr⟩ => ⟨ht, ?_⟩
    exact fun v hv hfield hpatch => hr v hv (Patch.merge_isIn hfield hpatch)

theorem freshCopy_ends {P : Value → Prop} (hP : Factory.IsRefreshable s.host.supply P)
    {field : Value} (hfield : P field) : (freshCopy field).Ends s (Mints s P) := by
  unfold freshCopy
  rw [ends_bind, ends_get, andThen_ok]
  exact onSupply_ends (Factory.regenerate_keeps hP hfield _)

/-- An edit goes on with what was made, in a store that is as before but for the names used up. -/
private theorem minted_ends {w : Editing Value} {f : Value → Editing Outcome} {P : Value → Prop}
    (hw : w.Ends s (Mints s P))
    (hf : ∀ v supply, s.host.supply.Follows supply → w.outcome s = (.ok v, s.withSupply supply) →
      (f v).Ends (s.withSupply supply) (EditCourse s c)) :
    (w >>= f).Ends s (EditCourse s c) := by
  rw [ends_bind]
  refine ends_of_outcome fun r t made => ?_
  obtain ⟨⟨supply, follows, rfl⟩, -⟩ := hw.outcome made
  cases r with
  | error e => exact .error follows e
  | ok v => exact hf v supply follows made

/-- Work on a section, after the search for it. -/
private theorem inSection_ends {target : Value} {w : Field → Editing Outcome}
    (hw : ∀ f, s.find? target = some f → f.isSection = true → (w f).Ends s (EditCourse s c)) :
    (do
      match ← Work.ofExcept (section? s target) with
      | .error r => return r
      | .ok f => w f : Editing Outcome).Ends s (EditCourse s c) := by
  rw [ends_bind, ends_ofExcept]
  cases hsection : section? s target with
  | error e => exact .error (.refl _) e
  | ok r =>
      rcases section?_cases hsection with ⟨o, rfl, ho⟩ | ⟨f, rfl, hfind, hf⟩
      · exact .ok (.refl _) ho.changed
      · exact hw f hfind hf

/-- Work with one more field at the root. -/
private theorem atRoot_ends {field : Value} {w : List Value → Editing Outcome}
    (follows : s.host.supply.Follows supply)
    (hw : ∀ fs, s.fields = .list fs →
      (w (fs ++ [field])).Ends (s.withSupply supply) (EditCourse s c)) :
    (do w (← Work.ofExcept (withRoot s field)) : Editing Outcome).Ends (s.withSupply supply)
      (EditCourse s c) := by
  rw [ends_bind, ends_ofExcept]
  unfold withRoot
  split
  · rename_i fs hroot
    exact hw fs hroot
  · exact .error follows _

theorem addField_ends (field : Value) :
    (addField field).Ends s (EditCourse s (.addField field)) := by
  unfold addField
  cases hshape : malformed? field with
  | some o => exact .ok (.refl _) (isRefusal_malformed? hshape).changed
  | none =>
      dsimp only
      rw [ends_bind, ends_get, andThen_ok]
      refine atRoot_ends (.refl _) fun fs hroot => ?_
      exact commitChecked_ends (.refl _) (fun hclash => .addField hshape hroot hclash) _ _

theorem addChild_ends (target field : Value) :
    (addChild target field).Ends s (EditCourse s (.addChild target field)) := by
  unfold addChild
  rw [ends_bind, ends_get, andThen_ok]
  refine inSection_ends fun f _ _ => ?_
  cases hshape : malformed? field with
  | some o => exact .ok (.refl _) (isRefusal_malformed? hshape).changed
  | none => exact commitChecked_ends (.refl _) (fun hclash => .addChild hshape hclash) _ _

/-- A patch is accepted for the field with an id, and a value is made of the field, or that fails. -/
structure Attempts (s : Store) (id patch : Value) (f : Field) (r : Except Failure Value)
    (u : Store) : Prop where
  found : s.find? id = some f
  accepted : refusedPatch? id f.value patch = .ok none
  made : ∃ entries, patch = .map entries ∧ (patched f.value entries).outcome s = (r, u)

/-- All that an edit of a field can come to. -/
inductive UpdateEnd (s : Store) (id patch : Value) : Except Failure Outcome → Store → Prop
  | unfit (other : ∀ entries, patch ≠ .map entries) :
      UpdateEnd s id patch (.ok (.failure .invalidPatch "Patch must be a mapping" id [])) s
  | missing (absent : s.find? id = none) : UpdateEnd s id patch (notFound id) s
  | failed {f : Field} {e : Failure} (found : s.find? id = some f)
      (refused : refusedPatch? id f.value patch = .error e) : UpdateEnd s id patch (.error e) s
  | refused {f : Field} {o : Outcome} (found : s.find? id = some f)
      (refused : refusedPatch? id f.value patch = .ok (some o)) : UpdateEnd s id patch (.ok o) s
  | broken {f : Field} {e : Failure} {u : Store} (attempts : Attempts s id patch f (.error e) u) :
      UpdateEnd s id patch (.error e) u
  | malformed {f : Field} {new : Value} {o : Outcome} {u : Store}
      (attempts : Attempts s id patch f (.ok new) u) (shape : malformed? new = some o) :
      UpdateEnd s id patch (.ok o) u
  | dropped {f : Field} {new : Value} {u : Store} (attempts : Attempts s id patch f (.ok new) u)
      (shape : malformed? new = none) (same : Difference.differ f.value new = false) :
      UpdateEnd s id patch (.ok (.unchanged "Patch does not change the field" .ok id)) u
  | stored {f : Field} {new : Value} {u t : Store} {r : Except Failure Outcome}
      (attempts : Attempts s id patch f (.ok new) u) (shape : malformed? new = none)
      (differs : Difference.differ f.value new = true)
      (committed : (commitChecked (Forest.replace id new s.forest) "update_field" id).outcome u
        = (r, t)) : UpdateEnd s id patch r t

/-- What an edit of a field leaves is told by cases. -/
theorem updateField_cases (id patch : Value) :
    (updateField id patch).Ends s (UpdateEnd s id patch) := by
  unfold updateField
  cases patch with
  | map entries =>
      dsimp only
      rw [ends_bind, ends_get, andThen_ok]
      cases found : s.find? id with
      | none =>
          dsimp only
          rw [ends_ofExcept]
          exact .missing found
      | some f =>
          dsimp only
          rw [ends_bind, ends_ofExcept]
          cases accepted : refusedPatch? id f.value (.map entries) with
          | error e => exact .failed found accepted
          | ok refusal =>
              rw [andThen_ok]
              cases refusal with
              | some o => exact .refused found accepted
              | none =>
                  dsimp only
                  rw [ends_bind]
                  refine ends_of_outcome fun r u made => ?_
                  have attempts : Attempts s id (.map entries) f r u :=
                    ⟨found, accepted, entries, rfl, made⟩
                  cases r with
                  | error e => exact .broken attempts
                  | ok new =>
                      rw [andThen_ok]
                      cases shape : malformed? new with
                      | some o => exact .malformed attempts shape
                      | none =>
                          dsimp only
                          split
                          · next differs =>
                              exact ends_of_outcome fun _ _ => .stored attempts shape differs
                          · next same => exact .dropped attempts shape (Bool.eq_false_iff.2 same)
  | _ => exact .unfit nofun

/-- How an edit goes on with what was made of the field. -/
theorem Attempts.ends {id patch new : Value} {f : Field} (h : Attempts s id patch f (.ok new) u)
    {Q : Except Failure Outcome → Store → Prop} :
    (updateField id patch).Ends s Q ↔
      (match malformed? new with
        | some r => return r
        | none =>
          if Difference.differ f.value new then
            commitChecked (Forest.replace id new s.forest) "update_field" id
          else return .unchanged "Patch does not change the field" .ok id :
        Editing Outcome).Ends u Q := by
  obtain ⟨entries, rfl, made⟩ := h.made
  unfold updateField
  dsimp only
  rw [ends_bind, ends_get, andThen_ok, h.found]
  dsimp only
  rw [ends_bind, ends_ofExcept, h.accepted, andThen_ok]
  dsimp only
  rw [ends_bind, ends_iff, made]
  rfl

theorem updateField_ends (id patch : Value) :
    (updateField id patch).Ends s (EditCourse s (.updateField id patch)) := by
  have minted : ∀ {f : Field} {r : Except Failure Value} {u : Store},
      Attempts s id patch f r u →
        ∃ supply, s.host.supply.Follows supply ∧ u = s.withSupply supply := fun h => by
    obtain ⟨entries, -, made⟩ := h.made
    exact ((patched_ends .anything _ _).outcome made).1
  refine (updateField_cases id patch).mono fun r t h => ?_
  cases h with
  | unfit => exact .ok (.refl _) rfl
  | missing =>
      exact (ends_ofExcept _).1 (ends_answer fun _ ho => (isRefusal_notFound ho).changed)
  | failed => exact .error (.refl _) _
  | refused _ refused => exact .ok (.refl _) (isRefusal_refusedPatch? refused).changed
  | broken attempts =>
      obtain ⟨supply, follows, rfl⟩ := minted attempts
      exact .error follows _
  | malformed attempts shape =>
      obtain ⟨supply, follows, rfl⟩ := minted attempts
      exact .ok follows (isRefusal_malformed? shape).changed
  | dropped attempts =>
      obtain ⟨supply, follows, rfl⟩ := minted attempts
      exact .ok follows rfl
  | stored attempts shape _ committed =>
      obtain ⟨supply, follows, rfl⟩ := minted attempts
      obtain ⟨entries, rfl, made⟩ := attempts.made
      exact (commitChecked_ends follows
        (fun hclash => .updateField attempts.found made shape hclash) _ _).outcome committed

theorem removeField_ends (id : Value) :
    (removeField id).Ends s (EditCourse s (.removeField id)) := by
  unfold removeField
  rw [ends_bind, ends_get, andThen_ok]
  cases s.find? id with
  | none => exact ends_answer fun _ ho => (isRefusal_notFound ho).changed
  | some f =>
      dsimp only
      unfold deselect
      rw [ends_bind, ends_bind, ends_get, andThen_ok]
      by_cases hashable : s.selected.isHashable = true
      · rw [hashable]
        simp only [Bool.not_true, Bool.false_eq_true, if_false]
        split
        · refine commit_ends ?_ .removeField _ _
          exact ⟨rfl, rfl, rfl, .refl _⟩
        · exact commit_ends (.refl s) .removeField _ _
      · rw [Bool.not_eq_true] at hashable
        rw [hashable]
        exact .error (.refl _) _

private theorem moveAmong_ends {siblings : Forest} {source target owner : Value} {label : String}
    {rebuild : List Value → List Value}
    (h : ∀ i j, i < siblings.length → j < siblings.length →
      Rewrites s c (rebuild (moved siblings.toValues i j))) :
    (moveAmong siblings source target owner label rebuild).Ends s (EditCourse s c) := by
  unfold moveAmong
  dsimp only
  cases hsource : position? siblings.length source with
  | none => exact ends_answer fun _ ho => (isRefusal_outOfRange ho).changed
  | some i =>
      dsimp only
      cases htarget : position? siblings.length target with
      | none => exact ends_answer fun _ ho => (isRefusal_outOfRange ho).changed
      | some j =>
          dsimp only
          split
          · exact .ok (.refl _) rfl
          · exact commit_ends (.refl s) (h i j (position?_lt hsource) (position?_lt htarget)) _ _

theorem moveField_ends (source target : Value) :
    (moveField source target).Ends s (EditCourse s (.moveField source target)) := by
  unfold moveField
  rw [ends_bind, ends_get, andThen_ok]
  exact moveAmong_ends fun i j hi hj => .moveField hi hj

theorem moveChild_ends (owner source target : Value) :
    (moveChild owner source target).Ends s (EditCourse s (.moveChild owner source target)) := by
  unfold moveChild
  rw [ends_bind, ends_get, andThen_ok]
  refine inSection_ends fun f hfind hf => ?_
  exact moveAmong_ends fun i j hi hj => .moveChild hfind hf hi hj

theorem copy_ends (id : Value) : (copy id).Ends s (EditCourse s (.copy id)) := by
  unfold copy
  rw [ends_bind, ends_get, andThen_ok]
  cases found : s.find? id with
  | none => exact ends_answer fun _ ho => (isRefusal_notFound ho).changed
  | some f => exact .copied found rfl

theorem paste_ends (target : Value) : (paste target).Ends s (EditCourse s (.paste target)) := by
  unfold paste
  rw [ends_bind, ends_get, andThen_ok]
  cases held : s.clipboard with
  | none => exact .ok (.refl _) rfl
  | some content =>
      dsimp only
      split
      · refine minted_ends (freshCopy_ends Factory.isRefreshable_true trivial) ?_
        intro field supply follows made
        refine atRoot_ends follows fun fs hroot => ?_
        exact commitChecked_ends follows (fun hclash => .pasteRoot held made hroot hclash) _ _
      · refine inSection_ends fun f _ _ => ?_
        refine minted_ends (freshCopy_ends Factory.isRefreshable_true trivial) ?_
        intro field supply follows made
        exact commitChecked_ends follows (fun hclash => .pasteChild held made hclash) _ _

theorem turn_ends (side : History.Side) {o : Outcome} (ho : o.changed = false) (label : String) :
    (do
      let s ← get
      match ← onHistory (History.turn side s.host.timestamp s.schema) with
      | none => return o
      | some schema => present schema label : Editing Outcome).Ends s
        fun r t => Command.Turns s side (r.map .outcome) t := by
  rw [ends_bind, ends_get, andThen_ok, ends_bind, ends_onHistory, History.ends_turn]
  cases found : s.history.nearest side with
  | none => exact .atEnd found ho
  | some nearest =>
      dsimp only
      cases captured : Snapshot.capture s.host.timestamp s.schema nearest.label with
      | error e => exact .unwritten found captured ⟨rfl, rfl, rfl, .refl _⟩
      | ok noted =>
          dsimp only
          cases restored : nearest.restore with
          | error e => exact .unread found captured restored ⟨rfl, rfl, rfl, .refl _⟩
          | ok schema =>
              rw [Except.map, andThen_ok]
              refine present_ends (s := s) ?_ ?_ schema label fun r t ht hr hsaved => ?_
              · rfl
              · exact .refl _
              · exact .turned found captured restored ht (changed_reply hr) hsaved

theorem importSchema_ends (document : Value) :
    (importSchema document).Ends s (EditCourse s (.importSchema document)) := by
  unfold importSchema
  cases loaded : Schema.load document with
  | error e =>
      cases e with
      | rejected problems message => exact .ok (.refl _) rfl
      | _ => exact .error (.refl _) _
  | ok schema =>
      dsimp only
      rw [ends_bind, ends_modify, andThen_ok, ends_bind, ends_get, andThen_ok, ends_bind,
        ends_onHistory, History.ends_record]
      dsimp only
      cases captured : Snapshot.capture
          ({ s with selected := .null } : Store).host.timestamp s.schema
            (.text "import_schema") with
      | error e =>
          exact .aside ⟨rfl, rfl, rfl, .refl _⟩ noOutcome_error
            (.inr ⟨e, Snapshot.capture_eq_error_iff.1 captured⟩)
      | ok noted =>
          dsimp only
          rw [andThen_ok]
          refine present_ends (s := s) ?_ ?_ schema _ fun r t ht hr hsaved => ?_
          · rfl
          · exact .refl _
          · exact .committed (.importSchema loaded) captured ht (changed_reply hr) hsaved

theorem select_ends (id : Value) :
    (select id).Ends s fun _ t => s.Becomes s.schema s.history t ∧ (t = s ∨ t.IsUpToDate) := by
  unfold select
  rw [ends_bind, ends_get, andThen_ok]
  split
  · exact ⟨.refl s, .inl rfl⟩
  · rw [ends_bind, ends_modify, andThen_ok]
    refine (announce_ends ?_).mono fun _ _ h => ⟨h.1, .inr h.2⟩
    exact ⟨rfl, rfl, rfl, .refl _⟩

/-- The course of a command whatever it answers, as long as it is no outcome. -/
private def Answers (s : Store) (c : Command) (t : Store) : Prop :=
  ∀ r : Except Failure Reply, (∀ o, r ≠ .ok (.outcome o)) → Course s c r t

private theorem answers_self (s : Store) (c : Command) : Answers s c s := fun r hr =>
  .refused (.refl _) fun a ha => by
    cases a with
    | outcome o => exact absurd ha (hr o)
    | value v => rfl

theorem restore_ends : restore.Ends s fun _ t => Answers s .restore t := by
  unfold restore
  rw [ends_bind, ends_get, andThen_ok]
  split
  · exact answers_self s _
  · rename_i storage hstorage
    split
    · exact answers_self s _
    · exact answers_self s _
    · exact answers_self s _
    · rename_i state hload
      split
      · rename_i stored hread
        rw [ends_bind, ends_set, andThen_ok]
        exact fun r hr => .restored hstorage hload hread hr
      · rename_i e hread
        split
        · rw [ends_bind, ends_set, andThen_ok]
          exact fun r hr => .emptied hr hstorage hload hread ‹_›
        · exact answers_self s _

end Editing

namespace Command

open Editing

variable {s : Store} {c : Command}

/-- Work whose result is turned into a value. -/
private theorem answer_ends {α : Type} {w : Editing α} {f : α → Value}
    (hw : w.Ends s fun _ t => Answers s c t) :
    (do return .value (f (← w)) : Editing Reply).Ends s (Course s c) := by
  rw [ends_bind]
  refine Ends.mono hw fun r t h => ?_
  cases r with
  | error e => exact h _ fun _ h => by cases h
  | ok a => exact h _ fun _ h => by cases h

/-- What is looked up changes nothing. -/
private theorem lookup_ends {α : Type} (look : Store → Except Failure α) (f : α → Value) :
    (do return .value (f (← Work.ofExcept (look (← get)))) : Editing Reply).Ends s
      (Course s c) := by
  rw [ends_bind, ends_get, andThen_ok]
  refine answer_ends ?_
  rw [ends_ofExcept]
  exact answers_self s c

/-- Undo and redo step to their sides. -/
theorem turn_run_ends (side : History.Side) (s : Store) :
    (turn side).run.Ends s (Turns s side) := by
  cases side with
  | past => exact (ends_map _).2 (turn_ends .past rfl "undo")
  | future => exact (ends_map _).2 (turn_ends .future rfl "redo")

/-- A command takes its course on every store. -/
theorem run_ends (c : Command) (s : Store) : c.run.Ends s (Course s c) := by
  cases c with
  | addField f => exact (ends_map _).2 (addField_ends f)
  | addChild t f => exact (ends_map _).2 (addChild_ends t f)
  | updateField id p => exact (ends_map _).2 (updateField_ends id p)
  | removeField id => exact (ends_map _).2 (removeField_ends id)
  | moveField i j => exact (ends_map _).2 (moveField_ends i j)
  | moveChild o i j => exact (ends_map _).2 (moveChild_ends o i j)
  | copy id => exact (ends_map _).2 (copy_ends id)
  | paste t => exact (ends_map _).2 (paste_ends t)
  | undo => exact (turn_run_ends .past s).mono fun _ _ => .turned
  | redo => exact (turn_run_ends .future s).mono fun _ _ => .turned
  | importSchema d => exact (ends_map _).2 (importSchema_ends d)
  | select id =>
      refine answer_ends (f := fun _ => .null) ((select_ends id).mono fun _ t ht => ?_)
      exact fun r hr => .aside ht.1 hr (.inl ⟨id, rfl, ht.2⟩)
  | restore => exact answer_ends restore_ends
  | selectedField => exact lookup_ends (fun s => .ok s.selectedField?) .ofOption
  | getField id => exact lookup_ends (fun s => .ok ((s.find? id).map Field.value)) .ofOption
  | existingKeys => exact lookup_ends (fun s => .ok s.keys) .list
  | lastChange => exact lookup_ends Store.lastChange .ofTexts
  | exportText => exact lookup_ends Store.exportText .text
  | state => exact lookup_ends Store.state id

/-- A field that is added is the last one at the root, and the schema before it is noted. -/
theorem Course.added {t : Store} {field : Value} {r : Except Failure Reply}
    (h : (addField field).Course s r t) (noted : t.history ≠ s.history) :
    ∃ fs u, t.schema = s.schema.put "fields" (.list (fs ++ [field])) ∧
      s.exportText = .ok u.payload ∧ t.history = (s.history.pushPast u).withoutFuture := by
  generalize hc : addField field = c at h
  cases h with
  | refused => exact absurd rfl noted
  | copied => cases hc
  | aside kept => exact absurd kept.history_eq noted
  | committed replaces captured becomes =>
      cases replaces with
      | importSchema => cases hc
      | rewrites rewrites =>
          cases rewrites with
          | addField =>
              obtain rfl := addField.inj hc
              exact ⟨_, _, becomes.schema_eq, (Snapshot.of_capture captured).1, becomes.history_eq⟩
          | _ => cases hc
  | @turned side => cases side <;> cases hc
  | restored | emptied => cases hc

end Command

end FormDesigner
