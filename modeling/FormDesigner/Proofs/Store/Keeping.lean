import FormDesigner.Proofs.Store.Export
import FormDesigner.Proofs.Store.Opening

/-!
# Keeping a store

What a storage in memory holds after a change is the text of the store's state, in which every
snapshot stands as the schema that it is restored to. Reading it back gives the same schema and the
same snapshots: a snapshot holds the canonical text of a schema, and writing the schema that the
text is read as gives that text again. Its label and its time come from a program or from JSON, and
JSON keeps them. So a store that is opened on the storage goes on where the other one was.
-/

namespace FormDesigner

open Work
open Value (IsIn IsJson IsProper)

/-! ### Snapshots that can be kept -/

/-- A snapshot holds the canonical text of a schema, JSON keeps all that it has besides, and it
knows its time. -/
structure Snapshot.IsKept (u : Snapshot) : Prop where
  payload : ∃ schema : Value, schema.IsIn .textKeyed ∧ Schema.exportText schema = .ok u.payload
  label : u.label.IsIn .readable
  takenAt : u.takenAt.IsIn .readable
  dated : u.takenAt.isTrue = true

theorem Host.timestamp_isTrue (h : Host) : (Value.text h.timestamp).isTrue = true := by
  have hlength : h.timestamp.toList ≠ [] := by
    simp [timestamp, Moment.isoText, Moment.isoTextWith]
  simpa [Value.isTrue, String.isEmpty_iff] using hlength

namespace Snapshot

variable {host : Host} {now : String} {schema label v : Value} {u : Snapshot}

theorem isKept_of_capture (hschema : schema.IsIn .textKeyed) (hlabel : label.IsIn .readable)
    (h : capture host.timestamp schema label = .ok u) : u.IsKept := by
  obtain ⟨htext, rfl, htaken⟩ := of_capture h
  exact ⟨⟨schema, hschema, htext⟩, hlabel, htaken ▸ .text _, htaken ▸ host.timestamp_isTrue⟩

theorem isKept_of_ofValue (hv : v.IsIn .readable) (h : ofValue host.timestamp v = .ok u) :
    u.IsKept := by
  obtain ⟨hlabel, htaken⟩ := isIn_of_ofValue hv h
  obtain ⟨schema, hschema, h⟩ := Result.bind_eq_ok.1 h
  obtain ⟨payload, hpayload, h⟩ := Result.bind_eq_ok.1 h
  obtain rfl := Except.ok.inj h
  refine ⟨⟨schema, (hv.of_entry hschema).textKeyed_of_readable, hpayload⟩, hlabel, htaken, ?_⟩
  dsimp only
  split
  · assumption
  · exact host.timestamp_isTrue

end Snapshot

/-- All snapshots of a history can be kept. -/
def History.IsKept (h : History) : Prop := ∀ u ∈ h.snapshots, u.IsKept

variable {s t : Store} {c : Command} {r : Except Failure Reply}

/-- A step leaves snapshots that can be kept. -/
theorem Command.Turns.isKept {side : History.Side} (h : Command.Turns s side r t)
    (hschema : s.schema.IsIn .textKeyed) (hs : s.history.IsKept) : t.history.IsKept := by
  have hwithout : ∀ u ∈ (s.history.without side).snapshots, u.IsKept := fun u hu =>
    hs u (History.mem_snapshots_of_without hu)
  have hleft : ∀ {host : Host} {nearest noted : Snapshot},
      s.history.nearest side = some nearest →
        Snapshot.capture host.timestamp s.schema nearest.label = .ok noted →
          ((s.history.without side).leaving side noted).IsKept := by
    intro host nearest noted found captured u hu
    rcases History.mem_snapshots_leaving hu with rfl | hu
    · exact Snapshot.isKept_of_capture hschema
        (hs nearest (History.mem_snapshots_of_nearest found)).label captured
    · exact hwithout u hu
  cases h with
  | atEnd => exact hs
  | turned found captured _ becomes => exact becomes.history_eq ▸ hleft found captured
  | unread found captured _ becomes => exact becomes.history_eq ▸ hleft found captured
  | unwritten _ _ becomes => exact becomes.history_eq ▸ hwithout

/-- Whatever a command does, the snapshots that it leaves can be kept. -/
theorem Command.Course.isKept (h : c.Course s r t) (hschema : s.schema.IsIn .textKeyed)
    (hs : s.history.IsKept) : t.history.IsKept := by
  cases h with
  | refused | copied => exact hs
  | aside kept => exact kept.history_eq ▸ hs
  | committed _ captured becomes =>
      rw [becomes.history_eq]
      intro u hu
      rcases History.mem_snapshots_pushPast (History.mem_snapshots_withoutFuture hu) with rfl | hu
      · exact Snapshot.isKept_of_capture hschema (.text _) captured
      · exact hs u hu
  | turned turns => exact turns.isKept hschema hs
  | restored _ loaded read =>
      obtain ⟨source, history, -, -, hhistory, hread, -⟩ := StoredState.read_eq_ok read
      have hstate : IsIn .readable _ := Storage.isIn_of_load loaded
      have hin : history.IsIn .readable := by
        rcases hhistory with rfl | rfl
        · exact hstate.getOrNull trivial
        · exact .empty
      exact History.forall_of_ofValue hread hin fun _ hw _ h => Snapshot.isKept_of_ofValue hw h
  | emptied => exact fun u hu => absurd hu List.not_mem_nil

theorem Store.Reachable.isKept {capacity : Value}
    (h : s.Reachable (fun _ c => c.IsProper) capacity) : s.history.IsKept := by
  induction h with
  | new _ _ created =>
      obtain ⟨loaded, k, -, -, rfl⟩ := Store.create_eq_ok created
      exact fun u hu => absurd hu List.not_mem_nil
  | command before _ ran ih =>
      have hsound := before.isSound Value.Domain.isClosed_anything fun s c hc => hc.brings s
      exact (Command.run_ends _ _ |>.outcome ran).isKept hsound.schema.textKeyed ih
  | surroundings _ same _ ih => exact same.history ▸ ih

/-! ### What is read back -/

namespace Value

theorem image_ofFields (fields : List (String × Value)) :
    Json.image false (.ofFields fields) =
      .ofFields (fields.map fun f => (f.1, Json.image false f.2)) := by
  rw [ofFields, Json.image_map, ofFields, List.map_map, List.map_map]
  rfl

end Value

namespace Snapshot

/-- A snapshot that can be kept is read back from its value. -/
theorem IsKept.exists_toValue {u : Snapshot} (hu : u.IsKept) :
    ∃ v, u.toValue = .ok v ∧ v.IsIn .readable ∧ ∀ now, ofValue now v = .ok u := by
  obtain ⟨schema, hkeyed, htext⟩ := hu.payload
  have hrestore : u.restore = .ok (Json.image true schema) := Json.parse_write hkeyed htext
  have hreadable : (Json.image true schema).IsIn .readable := Json.isIn_of_parse hrestore
  have hget : ∀ n v, (n, v) ∈ [("schema", Json.image true schema), ("label", u.label),
      ("takenAt", u.takenAt)] → (Value.ofFields _).get? n = some v := fun n v =>
    Entries.get?_ofFields (by simp)
  refine ⟨.ofFields [("schema", Json.image true schema), ("label", u.label),
    ("takenAt", u.takenAt)], ?_, ?_, fun now => ?_⟩
  · rw [toValue, hrestore]
    rfl
  · refine IsIn.ofFields (by simp) ?_
    simp only [List.forall_mem_cons]
    exact ⟨hreadable, hu.label, hu.takenAt, List.forall_mem_nil _⟩
  · -- the payload is canonical, so that writing what it says gives the same text
    have hexport : Schema.exportText (Json.image true schema) = .ok u.payload :=
      Json.writeAt_image (s := .canonical) hkeyed htext
    rw [ofValue, Value.entry_eq_ok_iff.2 (hget "schema" (Json.image true schema) (by simp)),
      Result.ok_bind, hexport, Result.ok_bind, Value.getOrNull, hget "takenAt" u.takenAt (by simp),
      hget "label" u.label (by simp)]
    dsimp only [Option.getD_some]
    rw [if_pos hu.dated]
    rfl

end Snapshot

namespace History

variable {h : History} {us : List Snapshot}

/-- Snapshots that can be kept are read back from their values one after the other. -/
theorem exists_toValues (hus : ∀ u ∈ us, u.IsKept) :
    ∃ vs, us.mapM Snapshot.toValue = .ok vs ∧ (∀ v ∈ vs, v.IsIn .readable) ∧
      ∀ now push h, readAll now push h vs = .ok (us.foldl push h) := by
  induction us with
  | nil => exact ⟨[], rfl, List.forall_mem_nil _, fun _ _ _ => rfl⟩
  | cons u us ih =>
      obtain ⟨hu, hus⟩ := List.forall_mem_cons.1 hus
      obtain ⟨v, hv, hreadable, hread⟩ := hu.exists_toValue
      obtain ⟨vs, hvs, hreadables, hreads⟩ := ih hus
      refine ⟨v :: vs, Result.mapM_cons.2 ⟨v, vs, hv, hvs, rfl⟩,
        List.forall_mem_cons.2 ⟨hreadable, hreadables⟩, fun now push h => ?_⟩
      rw [readAll, List.foldlM_cons, hread now]
      exact hreads now push (push h u)

/-- Snapshots for which there is room are put next to the present in their order. -/
theorem foldl_pushPast (h : History) (us : List Snapshot)
    (room : h.past.length + us.length ≤ h.capacity.size) :
    (us.foldl pushPast h).capacity = h.capacity ∧ (us.foldl pushPast h).past = h.past ++ us ∧
      (us.foldl pushPast h).future = h.future := by
  induction us generalizing h with
  | nil => exact ⟨rfl, (List.append_nil _).symm, rfl⟩
  | cons u us ih =>
      have hroom : (h.past ++ [u]).length + us.length ≤ h.capacity.size := by
        simp only [List.length_append, List.length_cons, List.length_nil] at room ⊢
        omega
      have hpast : (h.pushPast u).past = h.past ++ [u] :=
        newest_eq_self (Nat.le_trans (Nat.le_add_right _ _) hroom)
      obtain ⟨hcapacity, hpasts, hfuture⟩ := ih (h.pushPast u) (hpast.symm ▸ hroom)
      refine ⟨hcapacity, ?_, hfuture⟩
      rw [List.foldl_cons, hpasts, hpast, List.append_assoc]
      rfl

/-- Snapshots for which there is room are put at the far end of the future in their order. -/
theorem foldl_extendFuture (h : History) (us : List Snapshot)
    (room : h.future.length + us.length ≤ h.capacity.size) :
    (us.foldl extendFuture h).capacity = h.capacity ∧
      (us.foldl extendFuture h).past = h.past ∧
        (us.foldl extendFuture h).future = h.future ++ us := by
  induction us generalizing h with
  | nil => exact ⟨rfl, rfl, (List.append_nil _).symm⟩
  | cons u us ih =>
      have hroom : (h.future ++ [u]).length + us.length ≤ h.capacity.size := by
        simp only [List.length_append, List.length_cons, List.length_nil] at room ⊢
        omega
      have hfuture : (h.extendFuture u).future = h.future ++ [u] :=
        newest_eq_self (Nat.le_trans (Nat.le_add_right _ _) hroom)
      obtain ⟨hcapacity, hpast, hfutures⟩ := ih (h.extendFuture u) (hfuture.symm ▸ hroom)
      refine ⟨hcapacity, hpast, ?_⟩
      rw [List.foldl_cons, hfutures, hfuture, List.append_assoc]
      rfl

theorem eq_of_parts {h h' : History} (capacity : h.capacity = h'.capacity) (past : h.past = h'.past)
    (future : h.future = h'.future) : h = h' := by
  cases h
  cases h'
  simp only [mk.injEq]
  exact ⟨capacity, past, future⟩

/-- A history whose snapshots can be kept is read back from its value. -/
theorem IsKept.exists_toValue (hh : h.IsKept) :
    ∃ v, h.toValue = .ok v ∧ v.IsIn .readable ∧ v.isTrue = true ∧
      ∀ now, ofValue now h.capacity v = .ok h := by
  obtain ⟨past, hpast, hpasts, hreadPast⟩ :=
    exists_toValues fun u hu => hh u (List.mem_append_left h.future hu)
  obtain ⟨future, hfuture, hfutures, hreadFuture⟩ :=
    exists_toValues fun u hu => hh u (List.mem_append_right h.past hu)
  have hget : ∀ n v, (n, v) ∈ [("past", Value.list past), ("future", Value.list future)] →
      (sides past future).get? n = some v := fun n v => Entries.get?_ofFields (by simp)
  refine ⟨sides past future, ?_, ?_, rfl, fun now => ?_⟩
  · rw [toValue, hpast, hfuture]
    rfl
  · refine IsIn.ofFields (by simp) ?_
    simp only [List.forall_mem_cons]
    exact ⟨.list hpasts, .list hfutures, List.forall_mem_nil _⟩
  · -- there is room for both sides, so that no snapshot pushes another one out
    obtain ⟨hcapacity₁, hpast₁, hfuture₁⟩ := foldl_pushPast (empty h.capacity) h.past (by
      rw [empty, List.length_nil, Nat.zero_add]
      exact h.past_le)
    obtain ⟨hcapacity₂, hpast₂, hfuture₂⟩ :=
      foldl_extendFuture (h.past.foldl pushPast (empty h.capacity)) h.future (by
        rw [hfuture₁, hcapacity₁, empty, List.length_nil, Nat.zero_add]
        exact h.future_le)
    have hmap : (sides past future).isMap = true := rfl
    rw [ofValue, hmap]
    dsimp only
    rw [hget "past" (.list past) (by simp), hget "future" (.list future) (by simp)]
    dsimp only [Option.getD_some, Value.elements]
    rw [Result.ok_bind, hreadPast, Result.ok_bind, Result.ok_bind, hreadFuture]
    refine congrArg Except.ok (eq_of_parts ?_ ?_ ?_)
    · rw [hcapacity₂, hcapacity₁]
      rfl
    · rw [hpast₂, hpast₁]
      rfl
    · rw [hfuture₂, hfuture₁]
      rfl

end History

namespace Storage

variable {g : Storage} {d : Disk} {now text : String} {state : Value}

/-- A state that has been written into a storage in memory is loaded from it. -/
theorem IsTyped.load_of_saved (hg : g.IsTyped) (hmedium : g.medium = .memory (some text))
    (hstate : state.IsIn .textKeyed) (hmap : state.isMap = true)
    (written : Json.write .compact (g.envelope now state) = .ok text) :
    g.load d = .ok (some (Json.image false state)) := by
  obtain ⟨n, hname⟩ := hg.name
  have hkeyed : (g.envelope now state).IsIn .textKeyed := by
    refine IsIn.ofFields (by simp) ?_
    simp only [List.forall_mem_cons]
    exact ⟨hname ▸ .text n, hg.version.textKeyed, .text _, hstate, List.forall_mem_nil _⟩
  have hparse : Json.parse text = .ok (.ofFields [("name", .text n), ("version", g.version),
      ("savedAt", .text now), ("state", Json.image false state)]) := by
    have himage : Json.parse text = .ok (Json.image false (g.envelope now state)) :=
      Json.parse_write hkeyed written
    rw [himage, Storage.envelope, Value.image_ofFields, hname]
    simp only [List.map_cons, List.map_nil, Json.image_text,
      Json.image_eq_self hg.version.readable]
  have hget : ∀ m v, (m, v) ∈ [("name", .text n), ("version", g.version), ("savedAt", .text now),
      ("state", Json.image false state)] → (Value.ofFields _).getOrNull m = v := fun m v h => by
    rw [Value.getOrNull, Entries.get?_ofFields (by simp) h, Option.getD_some]
  have himage : (Json.image false state).isMap = true := by
    cases state with
    | map es => rfl
    | _ => cases hmap
  rw [load, hmedium]
  dsimp only
  rw [hparse, Result.ok_bind, unwrap, hget "name" (.text n) (by simp),
    hget "version" g.version (by simp), hget "state" (Json.image false state) (by simp), hname,
    Json.equals_self (.text n), Json.equals_self hg.version]
  exact if_pos himage

end Storage

namespace StoredState

theorem selection_image (v : Value) : selection (Json.image false v) = selection v := by
  cases v with
  | float x => cases x <;> rfl
  | list xs => rw [Json.image_list]; rfl
  | tuple xs => rw [Json.image_tuple]; rfl
  | set xs => rw [Json.image_set]; rfl
  | map es => rw [Json.image_map]; rfl
  | _ => rfl

/-- A state is read if its schema and all snapshots of its history are valid. -/
theorem read_eq_ok_of_valid {now : String} {k : Capacity} {state schema history id : Value}
    {h : History} (hschema : state.get? "schema" = some schema)
    (hhistory : state.get? "history" = some history) (hid : state.get? "selectedId" = some id)
    (valid : Schema.problems schema = .ok []) (htrue : history.isTrue = true)
    (hread : History.ofValue now k history = .ok h)
    (snapshots : ∀ u ∈ h.past ++ h.future, ∃ schema, u.restore = .ok schema ∧
      Schema.problems schema = .ok []) :
    read now k state = .ok ⟨schema, h, selection id⟩ := by
  have hchecked : (h.past ++ h.future).forM checkSnapshot = .ok () := by
    refine Result.forM_eq_ok.2 fun u hu => ?_
    obtain ⟨schema, hrestore, hvalid⟩ := snapshots u hu
    rw [checkSnapshot, hrestore, Result.ok_bind, hvalid]
    rfl
  rw [read, Value.entry_eq_ok_iff.2 hschema, Result.ok_bind, Schema.load_of_problems valid,
    Result.ok_bind, Value.getOrNull, hhistory, Value.getOrNull, hid]
  dsimp only [Option.getD_some]
  rw [if_pos htrue, hread, Result.ok_bind, hchecked]
  rfl

end StoredState

namespace Store

variable {g : Storage} {host : Host} {capacity : Value}

/-- What a store must be like to be kept in a storage: JSON carries its schema and can express its
selection, the schema and those of its snapshots are valid, and its snapshots can be kept. -/
structure IsKeepable (s : Store) : Prop where
  schema : s.schema.IsJson
  valid : Schema.problems s.schema = .ok []
  history : s.history.IsKept
  snapshots : ∀ u ∈ s.history.snapshots, ∃ schema, u.restore = .ok schema ∧
    Schema.problems schema = .ok []
  selected : s.selected.IsIn .writable

/-- The state of a store that can be kept is read back from what JSON makes of it. -/
theorem IsKeepable.exists_state (hs : s.IsKeepable) :
    ∃ state, s.state = .ok state ∧ state.IsIn .writable ∧ state.isMap = true ∧
      ∀ now, StoredState.read now s.history.capacity (Json.image false state) =
        .ok ⟨s.schema, s.history, StoredState.selection s.selected⟩ := by
  obtain ⟨history, hhistory, hreadable, htrue, hread⟩ := hs.history.exists_toValue
  refine ⟨.ofFields [("schema", s.schema), ("history", history), ("selectedId", s.selected)],
    ?_, ?_, rfl, fun now => ?_⟩
  · rw [state, hhistory]
    rfl
  · refine IsIn.ofFields (by simp) ?_
    simp only [List.forall_mem_cons]
    exact ⟨hs.schema.writable, hreadable.writable_of_readable, hs.selected, List.forall_mem_nil _⟩
  · have hget : ∀ n v, (n, v) ∈ [("schema", s.schema), ("history", history),
        ("selectedId", Json.image false s.selected)] → (Value.ofFields _).get? n = some v :=
      fun n v => Entries.get?_ofFields (by simp)
    rw [Value.image_ofFields]
    simp only [List.map_cons, List.map_nil, Json.image_eq_self hs.schema.readable,
      Json.image_eq_self hreadable]
    rw [StoredState.read_eq_ok_of_valid (hget "schema" s.schema (by simp))
      (hget "history" history (by simp)) (hget "selectedId" (Json.image false s.selected) (by simp))
      hs.valid htrue (hread now) hs.snapshots, StoredState.selection_image]

/-- A store goes on where another one was whose state its storage holds. -/
theorem IsUpToDate.reopens (h : s.IsUpToDate) (hs : s.IsKeepable) (hstorage : s.storage = some g)
    (takes : g.TakesStates) (typed : g.IsTyped)
    (hcapacity : Capacity.ofValue capacity = .ok s.history.capacity) :
    ofStorage host capacity (some g) =
      .ok ((start host Schema.empty s.history.capacity (some g)).withState
        ⟨s.schema, s.history, StoredState.selection s.selected⟩) := by
  obtain ⟨state, hstate, hwritable, hmap, hread⟩ := hs.exists_state
  obtain ⟨now, hsaved⟩ := h g hstorage takes state hstate
  obtain ⟨text, written⟩ : ∃ text, Json.write .compact (g.envelope now state) = .ok text := by
    obtain ⟨n, hname⟩ := typed.name
    have henvelope : (g.envelope now state).IsIn .writable := by
      refine IsIn.ofFields (by simp) ?_
      simp only [List.forall_mem_cons]
      exact ⟨hname ▸ .text n, typed.version.writable, .text _, hwritable, List.forall_mem_nil _⟩
    exact (Json.write_isOk .compact henvelope.textKeyed_of_writable).2 henvelope
  rw [ofStorage_eq hcapacity,
    typed.load_of_saved (hsaved text written) hwritable.textKeyed_of_writable hmap written]
  dsimp only
  rw [hread]

end Store

end FormDesigner
