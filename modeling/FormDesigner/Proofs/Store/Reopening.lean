import FormDesigner.Proofs.Store.Keeping
import Mathlib.Data.List.Forall2

/-!
# Reopening a store

Every change to a store is saved. So a store that is opened later on the same storage has what the
other one had right after its last change: the schema, both sides of the history, and the selection
if that was a text. Restoring saves nothing, since the storage holds already what is restored.
Opening reads that a second time, which makes a difference only for snapshots that were stored
without a time.
-/

namespace FormDesigner

open Work
open Value (IsIn IsJson)

variable {s t : Store} {c : Command} {r : Except Failure Reply}

/-! ### What is stored without a time -/

/-- A snapshot is the same as another one, or the same at another time: it was dated when it was
read, and each reading has its own time. -/
def Snapshot.IsRedated (now now' : String) (u u' : Snapshot) : Prop :=
  u' = u ∨ u.takenAt = .text now ∧ u' = { u with takenAt := .text now' }

/-- A history has the same snapshots as another one, dated at the time of its own reading where they
have no time of their own. -/
structure History.IsRedated (now now' : String) (h h' : History) : Prop where
  capacity : h'.capacity = h.capacity
  past : List.Forall₂ (Snapshot.IsRedated now now') h.past h'.past
  future : List.Forall₂ (Snapshot.IsRedated now now') h.future h'.future

section

variable {now now' : String}

namespace Snapshot

theorem IsRedated.restore_eq {u u' : Snapshot} (h : u.IsRedated now now' u') :
    u'.restore = u.restore := by
  rcases h with rfl | ⟨-, rfl⟩ <;> rfl

theorem ofValue_alike (v : Value) :
    Result.Alike (IsRedated now now') (ofValue now v) (ofValue now' v) := by
  unfold ofValue
  refine .after _ fun schema => .after _ fun payload => .ok ?_
  split
  · exact .inl rfl
  · exact .inr ⟨rfl, rfl⟩

end Snapshot

namespace History

variable {h h' : History}

theorem IsRedated.refl (h : History) : h.IsRedated now now' h :=
  ⟨rfl, List.forall₂_same.2 fun _ _ => .inl rfl, List.forall₂_same.2 fun _ _ => .inl rfl⟩

theorem forall₂_newest {α β : Type} {R : α → β → Prop} {xs : List α} {ys : List β} {x : α} {y : β}
    (n : Nat) (hxs : List.Forall₂ R xs ys) (hx : R x y) :
    List.Forall₂ R (newest n (xs ++ [x])) (newest n (ys ++ [y])) := by
  have happend : List.Forall₂ R (xs ++ [x]) (ys ++ [y]) :=
    List.rel_append hxs (.cons hx .nil)
  rw [newest, newest, happend.length_eq]
  exact List.forall₂_drop _ happend

theorem IsRedated.pushPast (hh : h.IsRedated now now' h') {u u' : Snapshot}
    (hu : u.IsRedated now now' u') : (h.pushPast u).IsRedated now now' (h'.pushPast u') := by
  refine ⟨hh.capacity, ?_, hh.future⟩
  change List.Forall₂ _ (newest h.capacity.size _) (newest h'.capacity.size _)
  rw [hh.capacity]
  exact forall₂_newest _ hh.past hu

theorem IsRedated.extendFuture (hh : h.IsRedated now now' h') {u u' : Snapshot}
    (hu : u.IsRedated now now' u') :
    (h.extendFuture u).IsRedated now now' (h'.extendFuture u') := by
  refine ⟨hh.capacity, hh.past, ?_⟩
  change List.Forall₂ _ (newest h.capacity.size _) (newest h'.capacity.size _)
  rw [hh.capacity]
  exact forall₂_newest _ hh.future hu

private theorem readAll_alike {push : History → Snapshot → History}
    (hpush : ∀ {h h' : History}, h.IsRedated now now' h' → ∀ {u u' : Snapshot},
      u.IsRedated now now' u' → (push h u).IsRedated now now' (push h' u'))
    (hh : h.IsRedated now now' h') (vs : List Value) :
    Result.Alike (IsRedated now now') (readAll now push h vs) (readAll now' push h' vs) :=
  Result.Alike.foldlM (fun _ _ v hh => (Snapshot.ofValue_alike v).bind fun _ _ hu =>
    .ok (hpush hh hu)) vs hh

theorem ofValue_alike (k : Capacity) (v : Value) :
    Result.Alike (IsRedated now now') (ofValue now k v) (ofValue now' k v) := by
  unfold ofValue
  split
  · exact .error _
  · dsimp only
    refine .after _ fun past => ?_
    refine (readAll_alike IsRedated.pushPast (.refl _) past).bind fun h h' hh => ?_
    exact .after _ fun future => readAll_alike IsRedated.extendFuture hh future

/-- The check of a history does not look at the times. -/
theorem IsRedated.forM_checkSnapshot (hh : h.IsRedated now now' h') :
    (h'.past ++ h'.future).forM StoredState.checkSnapshot =
      (h.past ++ h.future).forM StoredState.checkSnapshot := by
  have hall : List.Forall₂ (Snapshot.IsRedated now now') (h.past ++ h.future)
      (h'.past ++ h'.future) := List.rel_append hh.past hh.future
  generalize h.past ++ h.future = us at hall ⊢
  generalize h'.past ++ h'.future = us' at hall ⊢
  induction hall with
  | nil => rfl
  | @cons u u' us us' hu _ ih =>
      change (StoredState.checkSnapshot u' >>= fun _ => us'.forM _) =
        (StoredState.checkSnapshot u >>= fun _ => us.forM _)
      rw [ih, StoredState.checkSnapshot, StoredState.checkSnapshot, hu.restore_eq]

end History

/-- What is read of a state does not depend on when it is read, but for the times of snapshots that
have none of their own. -/
theorem StoredState.read_alike (k : Capacity) (state : Value) :
    Result.Alike (fun a a' : StoredState => a'.schema = a.schema ∧
        a.history.IsRedated now now' a'.history ∧ a'.selected = a.selected)
      (read now k state) (read now' k state) := by
  unfold read
  refine .after _ fun source => .after _ fun schema => ?_
  refine (History.ofValue_alike k _).bind fun h h' hh => ?_
  rw [hh.forM_checkSnapshot]
  exact .after _ fun _ => .ok ⟨rfl, hh, rfl⟩

end

/-! ### Going on where another store was -/

namespace StoredState

variable {now : String} {capacity : Capacity} {state : Value} {stored : StoredState}

theorem selection_selection (v : Value) : selection (selection v) = selection v := by
  cases v <;> rfl

theorem selection_of_read (h : read now capacity state = .ok stored) :
    selection stored.selected = stored.selected := by
  unfold read at h
  obtain ⟨_, -, h⟩ := Result.bind_eq_ok.1 h
  obtain ⟨_, -, h⟩ := Result.bind_eq_ok.1 h
  obtain ⟨_, -, h⟩ := Result.bind_eq_ok.1 h
  obtain ⟨_, -, h⟩ := Result.bind_eq_ok.1 h
  obtain rfl := Except.ok.inj h
  exact selection_selection _

end StoredState

/-- A storage in memory does not look at the disk. -/
theorem Storage.TakesStates.load_eq {g : Storage} (hg : g.TakesStates) (d d' : Disk) :
    g.load d = g.load d' := by
  obtain ⟨held, hmedium⟩ := hg.medium
  rw [load, load, hmedium]
  cases held <;> rfl

/-- After a command that has changed the schema or the selection of a store, with a schema that JSON
can carry, a storage in memory holds the state of the store, or the command has just taken over what
the storage holds. -/
theorem Command.Course.of_changed {D : Value.Domain} (h : c.Course s r t) (hs : s.IsSound D)
    (changed : t.schema ≠ s.schema ∨ t.selected ≠ s.selected) (json : t.schema.IsJson) :
    t.IsUpToDate ∨ c = .restore ∧ ∃ storage state, s.storage = some storage ∧
      storage.load s.host.disk = .ok (some state) ∧
        ((∃ stored, StoredState.read s.host.timestamp s.history.capacity state = .ok stored ∧
            t = s.withState stored) ∨
          ∃ e, StoredState.read s.host.timestamp s.history.capacity state = .error e ∧
            StoredState.isUnusable e = true ∧ t = s.emptied) := by
  -- where a command stops because the schema cannot be written, the schema is still the same
  have hwritten : ∀ {e : Failure}, t.schema = s.schema → s.exportText ≠ .error e := by
    intro e hschema he
    obtain ⟨text, htext⟩ := Json.exists_write .canonical (hschema ▸ json)
    rw [Store.exportText, Schema.exportText, htext] at he
    cases he
  have hunchanged : t.schema = s.schema → t.selected = s.selected → False := fun h h' =>
    changed.elim (absurd h) (absurd h')
  cases h with
  | refused | copied => exact (hunchanged rfl rfl).elim
  | aside kept _ cause =>
      rcases cause with ⟨id, -, rfl | hsaved⟩ | ⟨e, he⟩
      · exact (hunchanged rfl rfl).elim
      · exact .inl hsaved
      · exact absurd he (hwritten kept.schema_eq)
  | committed _ _ _ _ saved => exact .inl saved
  | turned turns =>
      cases turns with
      | atEnd => exact (hunchanged rfl rfl).elim
      | turned _ _ _ _ _ saved => exact .inl saved
      | unread found _ unread => exact absurd unread (hs.restore_ne_error found)
      | unwritten _ unwritten becomes =>
          exact absurd (Snapshot.capture_eq_error_iff.1 unwritten) (hwritten becomes.schema_eq)
  | restored kept loaded read =>
      exact .inr ⟨rfl, _, _, kept, loaded, .inl ⟨_, read, rfl⟩⟩
  | emptied _ kept loaded unread unusable =>
      exact .inr ⟨rfl, _, _, kept, loaded, .inr ⟨_, unread, unusable, rfl⟩⟩

/-- After any command that has changed the schema or the selection, a store that is opened on the
storage in memory has the same schema and the same history, with every snapshot's text, label and
time. It has the same selection too if that is a text or nothing; any other is forgotten. The schema
and all snapshots have to be valid. Only snapshots that the command has restored and that were stored
without a time are dated anew. -/
theorem Store.Reachable.reopened {capacity : Value} {g : Storage} {host : Host}
    (hs : s.Reachable (fun _ c => c.IsProper) capacity) (proper : c.IsProper)
    (ran : c.run.outcome s = (r, t)) (changed : t.schema ≠ s.schema ∨ t.selected ≠ s.selected)
    (hstorage : t.storage = some g) (takes : g.TakesStates) (typed : g.IsTyped)
    (json : t.schema.IsJson) (valid : Schema.problems t.schema = .ok [])
    (snapshots : ∀ u ∈ t.history.past ++ t.history.future,
      ∃ schema, u.restore = .ok schema ∧ Schema.problems schema = .ok [])
    (selected : t.selected.IsIn .writable) :
    ∃ u, Store.ofStorage host capacity (some g) = .ok u ∧ u.schema = t.schema ∧
      (c ≠ .restore → u.history = t.history) ∧
      t.history.IsRedated s.host.timestamp host.timestamp u.history ∧
      u.selected = StoredState.selection t.selected := by
  have hsound := hs.isSound Value.Domain.isClosed_anything fun s c hc => hc.brings s
  have ht : t.Reachable (fun _ c => c.IsProper) capacity := hs.command proper ran
  rcases ((c.run_ends s).outcome ran).of_changed hsound changed json with
    hsaved | ⟨hc, storage, state, kept, loaded, hread⟩
  · -- the command has saved the state that it leaves
    have hkeepable : t.IsKeepable := ⟨json, valid, ht.isKept, snapshots, selected⟩
    exact ⟨_, hsaved.reopens hkeepable hstorage takes typed ht.capacity_eq, rfl, fun _ => rfl,
      .refl _, rfl⟩
  · -- the storage still holds what has been restored, and it is read at another time
    have hload : t.storage = s.storage → g.load host.disk = .ok (some state) := by
      intro hsame
      obtain rfl : storage = g := Option.some.inj ((kept.symm.trans hsame.symm).trans hstorage)
      exact (takes.load_eq host.disk s.host.disk).trans loaded
    have halike : Result.Alike _ (StoredState.read s.host.timestamp s.history.capacity state)
      (StoredState.read host.timestamp s.history.capacity state) := StoredState.read_alike _ _
    rw [Store.ofStorage_eq hs.capacity_eq]
    rcases hread with ⟨stored, hread, rfl⟩ | ⟨e, hread, unusable, rfl⟩
    · rw [hread] at halike
      generalize hread' : StoredState.read host.timestamp s.history.capacity state = r' at halike
      obtain ⟨hschema, hhistory, hselected⟩ | _ := halike
      rw [hload rfl]
      dsimp only
      rw [hread']
      exact ⟨_, rfl, hschema, absurd hc, hhistory,
        hselected.trans (StoredState.selection_of_read hread).symm⟩
    · rw [hread] at halike
      generalize hread' : StoredState.read host.timestamp s.history.capacity state = r' at halike
      obtain _ | _ := halike
      rw [hload rfl]
      dsimp only
      rw [hread']
      exact ⟨_, if_pos unusable, rfl, absurd hc, .refl _, rfl⟩

/-! ### A store with a step to undo -/

namespace Schema

theorem empty_isSound : IsSound .json empty := isSound_empty Value.Domain.isClosed_json.version

theorem problems_empty : problems empty = .ok [] :=
  empty_isSound.valid_iff.2 (by decide +kernel)

end Schema

theorem Snapshot.restore_of_empty {u : Snapshot}
    (h : Schema.exportText Schema.empty = .ok u.payload) :
    ∃ schema, u.restore = .ok schema ∧ Schema.problems schema = .ok [] := by
  have hsorted : Json.image true Schema.empty = Schema.empty.sortKeys :=
    Json.image_eq_sortKeys Schema.empty_isSound.isIn
  have hrestore : u.restore = .ok (Json.image true Schema.empty) :=
    Json.parse_write Schema.empty_isSound.textKeyed h
  have hload := (Schema.empty_isSound.load_exportText h).1 (by decide +kernel)
  exact ⟨_, hsorted ▸ hrestore, (Schema.load_eq_ok_iff.1 hload).2⟩

namespace Storage

theorem inMemory_takesStates (name : Value) : (inMemory name).TakesStates := ⟨⟨none, rfl⟩, rfl⟩

theorem inMemory_isTyped (name : String) : (inMemory (.text name)).IsTyped :=
  ⟨⟨name, rfl⟩, .scalar rfl (Value.isSome_integerText? (by decide))⟩

end Storage

namespace Editing

variable {g : Storage}

/-- Saving in memory leaves the document as it is, and the storage what it is. -/
theorem persist_inMemory_ends (hstorage : s.storage = some g) (takes : g.TakesStates) :
    persist.Ends s fun _ t => s.SameDocument t ∧
      ∃ held, t.storage = some { g with medium := .memory held } := by
  obtain ⟨held, hmedium⟩ := takes.medium
  have hsame : ∃ held, s.storage = some { g with medium := .memory held } := by
    refine ⟨held, hstorage.trans ?_⟩
    rw [← hmedium]
  unfold persist
  rw [ends_bind, ends_get, andThen_ok, hstorage]
  dsimp only
  rw [ends_bind, ends_get, andThen_ok, ends_bind, ends_ofExcept]
  cases s.state with
  | error e => exact ⟨⟨rfl, rfl, rfl, rfl⟩, hsame⟩
  | ok state =>
      rw [andThen_ok, ends_bind, timestamp, ends_bind, ends_get, andThen_ok, ends_pure,
        andThen_ok, ends_bind, ends_attempt, onDisk, ends_onPart, takes.save_ends, andThen_ok]
      cases Json.write .compact (g.envelope s.host.timestamp state) with
      | error e => cases e <;> exact ⟨⟨rfl, rfl, rfl, rfl⟩, hsame⟩
      | ok text => exact ⟨⟨rfl, rfl, rfl, rfl⟩, _, rfl⟩

/-- Nothing but the selection changes in the document when something else is selected. -/
theorem select_inMemory_ends {id : Value} (differs : id.equals s.selected = false)
    (hstorage : s.storage = some g) (takes : g.TakesStates) :
    (select id).Ends s fun _ t => ({ s with selected := id } : Store).SameDocument t ∧
      ∃ held, t.storage = some { g with medium := .memory held } := by
  have hpersist : persist.Ends { s with selected := id } _ := persist_inMemory_ends hstorage takes
  unfold select announce
  rw [ends_bind, ends_get, andThen_ok, differs, if_neg (by decide), ends_bind, ends_modify,
    andThen_ok, ends_bind]
  refine hpersist.mono fun r t ht => ?_
  cases r with
  | error e => exact ht
  | ok _ => exact ⟨⟨ht.1.schema, ht.1.history, ht.1.selected, ht.1.clipboard⟩, ht.2⟩

end Editing

/-- A machine one hour later. -/
def Host.later : Host := { Host.bare with clock := { Host.bare.clock with hour := 1 } }

namespace Store

/-- A store with a field that can be taken back, which has been given a storage in memory. -/
def edited : Store :=
  { bare.after [.addField (.textField "a")] with storage := some (.inMemory (.text "a")) }

theorem edited_reachable : edited.Reachable (fun _ c => c.IsProper) (.int 2) := by
  have start : bare.Reachable (fun _ c => c.IsProper) (.int 2) :=
    .bare (fun _ => .scalar (v := .null) rfl trivial) none
  have added : (bare.after [.addField (.textField "a")]).Reachable _ _ :=
    start.after (List.forall_mem_singleton.2 fun _ => Value.textField_isIn "a")
  have hsound := added.isSound Value.Domain.isClosed_anything fun s c hc => hc.brings s
  exact added.surroundings ⟨rfl, rfl, rfl, rfl⟩ hsound.supply

theorem edited_isKeepable : edited.IsKeepable := by
  have added : (bare.after [.addField (.textField "a")]).Reachable _ _ :=
    reachable_of_brings (List.forall_mem_singleton.2 fun _ => Value.textField_isIn "a")
  have hsound := added.isSound Value.Domain.isClosed_json fun _ _ h => h
  have noted : edited.history ≠ bare.history := by
    intro heq
    have hlength : edited.history.past.length = 1 := by decide +kernel
    rw [heq] at hlength
    cases hlength
  obtain ⟨_, u, -, hpayload, hnoted⟩ :=
    ((Command.addField (.textField "a")).run_ends bare).added noted
  have hhistory : edited.history = (bare.history.pushPast u).withoutFuture := hnoted
  have hsnapshots : ∀ v ∈ edited.history.past ++ edited.history.future,
      ∃ schema, v.restore = .ok schema ∧ Schema.problems schema = .ok [] := by
    rw [hhistory]
    exact List.forall_mem_singleton.2 (Snapshot.restore_of_empty hpayload)
  have hselected : edited.selected.IsIn .writable := by
    have hnull : edited.selected.isNull = true := by decide +kernel
    cases h : edited.selected with
    | null => exact .scalar rfl trivial
    | _ =>
        rw [h] at hnull
        cases hnull
  exact ⟨hsound.schema.isIn, hsound.schema.valid_iff.2 (by decide +kernel),
    edited_reachable.isKept, hsnapshots, hselected⟩

/-- What becomes of it when something is selected. -/
theorem edited_select {id : Value} (ran : (Command.select id).run.outcome edited = (r, t))
    (differs : id.equals edited.selected = false) (json : id.IsJson) :
    t.IsKeepable ∧ t.selected = id ∧ t.selected ≠ edited.selected ∧ t.history = edited.history ∧
      ∃ held, t.storage = some { Storage.inMemory (.text "a") with medium := .memory held } := by
  have takes := Storage.inMemory_takesStates (.text "a")
  have hselect := Editing.select_inMemory_ends differs rfl takes
  have hends : (Command.select id).run.Ends edited fun _ u =>
      ({ edited with selected := id } : Store).SameDocument u ∧
        ∃ held, u.storage = some { Storage.inMemory (.text "a") with medium := .memory held } := by
    unfold Command.run
    rw [ends_bind]
    refine hselect.mono fun r u hu => ?_
    cases r <;> exact hu
  obtain ⟨⟨hschema, hhistory, hselected, -⟩, hstorage⟩ := hends.outcome ran
  have changed : t.selected ≠ edited.selected := by
    intro heq
    have hself : id.equals t.selected = true := hselected ▸ Json.equals_self json
    rw [heq, differs] at hself
    cases hself
  have hs := edited_isKeepable
  exact ⟨⟨hschema ▸ hs.schema, hschema ▸ hs.valid, hhistory ▸ hs.history, hhistory ▸ hs.snapshots,
    hselected ▸ json.writable⟩, hselected, changed, hhistory, hstorage⟩

/-- The store is saved with its step to undo and has it when it is opened again. -/
theorem reopened_with_step :
    let t := ((Command.select (.text "a")).run.outcome edited).2
    t.history.past.length = 1 ∧ t.selected = .text "a" ∧ ∃ g u, t.storage = some g ∧
      ofStorage .later (.int 2) (some g) = .ok u ∧ u.schema = t.schema ∧ u.history = t.history ∧
        u.selected = .text "a" := by
  obtain ⟨⟨r, t⟩, ran⟩ : ∃ p, (Command.select (.text "a")).run.outcome edited = p := ⟨_, rfl⟩
  obtain ⟨hs, hselected, changed, hhistory, held, hstorage⟩ :=
    edited_select ran (by decide +kernel) (.text _)
  have typed := Storage.inMemory_isTyped "a"
  have hlength : t.history.past.length = 1 := by
    rw [hhistory]
    decide +kernel
  have proper : (Command.select (.text "a")).IsProper := trivial
  obtain ⟨u, hopens, hschema, hsame, -, hselection⟩ : ∃ u, ofStorage .later _ _ = .ok u ∧ _ :=
    Store.Reachable.reopened edited_reachable proper ran (.inr changed) hstorage ⟨⟨held, rfl⟩, rfl⟩
      ⟨typed.name, typed.version⟩ hs.schema hs.valid hs.snapshots hs.selected
  rw [ran]
  refine ⟨hlength, hselected, _, u, hstorage, hopens, hschema, hsame nofun, ?_⟩
  rw [hselection, hselected]
  rfl

end Store

/-! ### What is not carried over -/

/-- A snapshot of an empty schema, as a value without a time. -/
def Snapshot.undated : Value := .ofFields [("schema", Schema.empty)]

theorem Snapshot.ofValue_undated (now : String) :
    ∃ u, Snapshot.ofValue now undated = .ok u ∧
      Schema.exportText Schema.empty = .ok u.payload ∧ u.takenAt = .text now := by
  obtain ⟨text, htext⟩ := Json.exists_write .canonical Schema.empty_isSound.isIn
  have hschema : undated.entry "schema" = .ok Schema.empty :=
    Value.entry_eq_ok_iff.2 (Entries.get?_ofFields (by simp) (by simp))
  have htakenAt : (undated.getOrNull "takenAt").isTrue = false := by decide +kernel
  refine ⟨⟨text, (undated.get? "label").getD (.text ""), .text now⟩, ?_, htext, rfl⟩
  rw [ofValue, hschema, Result.ok_bind, Schema.exportText, htext, Result.ok_bind]
  dsimp only
  rw [htakenAt]
  rfl

/-- A history with such a snapshot, as a value. -/
def History.undated : Value := .ofFields [("past", .list [Snapshot.undated])]

theorem History.ofValue_undated (now : String) (k : Capacity) :
    ∃ h, History.ofValue now k undated = .ok h ∧
      (∀ u ∈ h.past ++ h.future,
        ∃ schema, u.restore = .ok schema ∧ Schema.problems schema = .ok []) ∧
      h.past.map Snapshot.takenAt = [.text now] := by
  obtain ⟨u, hu, hpayload, htaken⟩ := Snapshot.ofValue_undated now
  have hpushed : ((empty k).pushPast u).past = [u] := newest_eq_self k.size_pos
  have hpast : undated.get? "past" = some (.list [Snapshot.undated]) :=
    Entries.get?_ofFields (by simp) (by simp)
  have hfuture : undated.get? "future" = none := by decide +kernel
  refine ⟨(empty k).pushPast u, ?_, ?_, ?_⟩
  · rw [ofValue, if_neg (by decide)]
    dsimp only
    rw [hpast, hfuture]
    dsimp only [Option.getD_some, Option.getD_none, Value.elements]
    rw [Result.ok_bind, readAll, List.foldlM_cons, hu]
    rfl
  · rw [hpushed]
    exact List.forall_mem_singleton.2 (Snapshot.restore_of_empty hpayload)
  · rw [hpushed, List.map_singleton, htaken]

/-- The state of an empty store with such a history and a selection. -/
def StoredState.undated : Value :=
  .ofFields [("schema", Schema.empty), ("history", History.undated), ("selectedId", .text "a")]

theorem StoredState.undated_isJson : undated.IsJson := by
  have hsnapshot : Snapshot.undated.IsJson :=
    IsIn.ofFields (by simp) (List.forall_mem_singleton.2 Schema.empty_isSound.isIn)
  have hhistory : History.undated.IsJson :=
    IsIn.ofFields (by simp)
      (List.forall_mem_singleton.2 (.list (List.forall_mem_singleton.2 hsnapshot)))
  refine IsIn.ofFields (by simp) ?_
  simp only [List.forall_mem_cons]
  exact ⟨Schema.empty_isSound.isIn, hhistory, .text _, List.forall_mem_nil _⟩

theorem StoredState.read_undated (now : String) (k : Capacity) :
    ∃ h, read now k undated = .ok ⟨Schema.empty, h, .text "a"⟩ ∧
      (∀ u ∈ h.past ++ h.future,
        ∃ schema, u.restore = .ok schema ∧ Schema.problems schema = .ok []) ∧
      h.past.map Snapshot.takenAt = [.text now] := by
  obtain ⟨h, hh, hsnapshots, htimes⟩ := History.ofValue_undated now k
  have hget : ∀ n v, (n, v) ∈ [("schema", Schema.empty), ("history", History.undated),
      ("selectedId", .text "a")] → undated.get? n = some v :=
    fun n v => Entries.get?_ofFields (by simp)
  have hread := read_eq_ok_of_valid (hget "schema" _ (by simp)) (hget "history" _ (by simp))
    (hget "selectedId" (.text "a") (by simp)) Schema.problems_empty rfl hh hsnapshots
  exact ⟨h, hread, hsnapshots, htimes⟩

/-- A storage in memory after a state has been saved. -/
def Storage.holding (g : Storage) (state : Value) : Storage :=
  match Json.write .compact (g.envelope "" state) with
  | .ok text => { g with medium := .memory (some text) }
  | .error _ => g

theorem Storage.IsTyped.load_holding {g : Storage} {d : Disk} {state : Value} (hg : g.IsTyped)
    (hstate : state.IsJson) (hmap : state.isMap = true) :
    (g.holding state).load d = .ok (some state) := by
  obtain ⟨text, written⟩ := Json.exists_write .compact (hg.envelope hstate "")
  have typed : Storage.IsTyped { g with medium := .memory (some text) } := ⟨hg.name, hg.version⟩
  have hload : load { g with medium := .memory (some text) } d = _ :=
    typed.load_of_saved rfl hstate.textKeyed hmap written
  rw [holding, written]
  rwa [Json.image_eq_self hstate.readable] at hload

namespace Store

/-- An empty store on a storage with the state that has such a history. -/
def unread : Store :=
  { bare with storage := some ((Storage.inMemory (.text "a")).holding StoredState.undated) }

theorem unread_reachable : unread.Reachable (fun _ c => c.IsProper) (.int 2) :=
  .bare (fun _ => .scalar (v := .null) rfl trivial) _

/-- A stored state that can be read is taken over. -/
theorem restore_outcome {g : Storage} {state : Value} {stored : StoredState}
    (hstorage : s.storage = some g) (loaded : g.load s.host.disk = .ok (some state))
    (read : StoredState.read s.host.timestamp s.history.capacity state = .ok stored) :
    Command.restore.run.outcome s = (.ok (.value (.bool true)), s.withState stored) := by
  have hends : Command.restore.run.Ends s fun r t =>
      r = .ok (.value (.bool true)) ∧ t = s.withState stored := by
    unfold Command.run
    rw [ends_bind, Editing.ends_restore hstorage, loaded]
    dsimp only
    rw [read]
    exact ⟨rfl, rfl⟩
  exact Prod.ext hends.1 hends.2

/-- A number that has been selected is forgotten, and what was stored without a time is dated anew
each time. -/
theorem selection_and_time_not_reopened :
    (∃ r t u, (Command.select (.int 5)).run.outcome edited = (r, t) ∧ t.IsKeepable ∧
      t.selected = .int 5 ∧ ofStorage .bare (.int 2) t.storage = .ok u ∧ u.selected = .null) ∧
    ∃ r t u, Command.restore.run.outcome unread = (r, t) ∧ t.IsKeepable ∧
      unread.selected = .null ∧ t.selected = .text "a" ∧
        ofStorage .later (.int 2) t.storage = .ok u ∧
          t.history.past.map Snapshot.takenAt = [.text Host.bare.timestamp] ∧
            u.history.past.map Snapshot.takenAt = [.text Host.later.timestamp] ∧
              Host.bare.timestamp ≠ Host.later.timestamp := by
  have typed := Storage.inMemory_isTyped "a"
  refine ⟨?_, ?_⟩
  · obtain ⟨⟨r, t⟩, ran⟩ : ∃ p, (Command.select (.int 5)).run.outcome edited = p := ⟨_, rfl⟩
    obtain ⟨hs, hselected, changed, hhistory, held, hstorage⟩ :=
      edited_select ran (by decide +kernel) (.scalar rfl (Value.isSome_integerText? (by decide)))
    have hsaved : t.IsUpToDate := by
      have hcourse := ((Command.select (.int 5)).run_ends edited).outcome ran
      have hsound := edited_reachable.isSound Value.Domain.isClosed_anything fun _ _ hc => hc.brings _
      exact (hcourse.of_changed hsound (.inr changed) hs.schema).resolve_right nofun
    have hcapacity : Capacity.ofValue (.int 2) = .ok t.history.capacity :=
      hhistory ▸ edited_reachable.capacity_eq
    have hopens : ofStorage .bare _ _ = _ := hsaved.reopens hs hstorage ⟨⟨held, rfl⟩, rfl⟩
      ⟨typed.name, typed.version⟩ hcapacity
    refine ⟨r, t, _, ran, hs, hselected, hstorage ▸ hopens, ?_⟩
    change StoredState.selection t.selected = _
    rw [hselected]
    rfl
  · have hloaded (d : Disk) := typed.load_holding (d := d) StoredState.undated_isJson rfl
    have hcapacity := unread_reachable.capacity_eq
    obtain ⟨h, hread, hsnapshots, htimes⟩ :=
      StoredState.read_undated Host.bare.timestamp unread.history.capacity
    obtain ⟨h', hread', -, htimes'⟩ :=
      StoredState.read_undated Host.later.timestamp unread.history.capacity
    have ran : Command.restore.run.outcome unread = _ := restore_outcome rfl (hloaded _) hread
    have proper : Command.restore.IsProper := trivial
    have hkeepable : (unread.withState ⟨Schema.empty, h, .text "a"⟩).IsKeepable :=
      ⟨Schema.empty_isSound.isIn, Schema.problems_empty,
        (unread_reachable.command proper ran).isKept, hsnapshots, .text _⟩
    have hopens : ofStorage .later (.int 2) unread.storage =
        .ok ((start .later Schema.empty unread.history.capacity unread.storage).withState
          ⟨Schema.empty, h', .text "a"⟩) := by
      change ofStorage .later (.int 2) (some _) = _
      rw [ofStorage_eq hcapacity, hloaded]
      dsimp only
      rw [hread']
      rfl
    exact ⟨_, _, _, ran, hkeepable, rfl, rfl, hopens, htimes, htimes', by decide +kernel⟩

end Store

end FormDesigner
