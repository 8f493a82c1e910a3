import FormDesigner.Proofs.Store.Reachable

/-!
# The timeline of a store

A store whose documents JSON can carry is a timeline of versions with a cursor. An edit cuts off
what is ahead of the cursor and appends a version; undo and redo only move the cursor. The history
holds the versions on both sides of the cursor as texts, and what is read from such a text is the
version up to the order of members.

Steps at either end of the timeline stay where they are, so that steps back are made up for by as
many steps forward only if there were versions to step back to.
-/

namespace FormDesigner

/-- Versions of a schema, oldest first, and which of them is the present one. -/
structure Timeline where
  versions : List Value
  cursor : Nat
  cursor_lt : cursor < versions.length

namespace Timeline

def start (schema : Value) : Timeline := ⟨[schema], 0, Nat.zero_lt_one⟩

def present (T : Timeline) : Value := T.versions.get ⟨T.cursor, T.cursor_lt⟩

/-- The versions before the cursor, oldest first. -/
def before (T : Timeline) : List Value := T.versions.take T.cursor

/-- The versions after the cursor, nearest first. -/
def after (T : Timeline) : List Value := T.versions.drop (T.cursor + 1)

/-- Forgets the versions after the cursor and appends one, before which at most `size` versions are
kept. -/
def commit (size : Nat) (schema : Value) (T : Timeline) : Timeline :=
  let kept := newest size (T.before ++ [T.present])
  ⟨kept ++ [schema], kept.length, by simp⟩

def back (T : Timeline) : Timeline := ⟨T.versions, T.cursor - 1, by have := T.cursor_lt; omega⟩

def forth (T : Timeline) : Timeline :=
  if h : T.cursor + 1 < T.versions.length then ⟨T.versions, T.cursor + 1, h⟩ else T

variable {T : Timeline} {size : Nat} {schema : Value}

@[simp] theorem length_before : T.before.length = T.cursor := by
  have := T.cursor_lt
  rw [before, List.length_take]
  omega

@[simp] theorem length_after : T.after.length = T.versions.length - (T.cursor + 1) :=
  List.length_drop

theorem versions_eq (T : Timeline) : T.versions = T.before ++ T.present :: T.after := by
  rw [before, present, after, List.get_eq_getElem, ← List.drop_eq_getElem_cons,
    List.take_append_drop]

theorem mem_versions {v : Value} : v ∈ T.versions ↔ v ∈ T.before ∨ v = T.present ∨ v ∈ T.after := by
  rw [versions_eq, List.mem_append, List.mem_cons]

@[simp] theorem before_commit :
    (T.commit size schema).before = newest size (T.before ++ [T.present]) := by
  simp [commit, before]

@[simp] theorem present_commit : (T.commit size schema).present = schema := by
  simp [commit, present]

@[simp] theorem after_commit : (T.commit size schema).after = [] := by
  simp [commit, after]

@[simp] theorem cursor_commit : (T.commit size schema).cursor = min size (T.cursor + 1) := by
  rw [← length_before, before_commit, newest, List.length_drop, List.length_append, length_before,
    List.length_singleton]
  omega

/-- A step back leaves the version that it comes from nearest on the other side. -/
theorem before_of_back (h : 0 < T.cursor) : T.before = T.back.before ++ [T.back.present] := by
  obtain ⟨versions, cursor, cursor_lt⟩ := T
  obtain ⟨n, rfl⟩ := Nat.exists_eq_succ_of_ne_zero (Nat.pos_iff_ne_zero.1 h)
  exact List.take_succ_eq_append_getElem (Nat.lt_of_succ_lt cursor_lt)

theorem after_back (h : 0 < T.cursor) : T.back.after = T.present :: T.after := by
  obtain ⟨versions, cursor, cursor_lt⟩ := T
  obtain ⟨n, rfl⟩ := Nat.exists_eq_succ_of_ne_zero (Nat.pos_iff_ne_zero.1 h)
  exact List.drop_eq_getElem_cons cursor_lt

/-- A step back from a version that was just appended leads to the one before. -/
theorem present_back_commit (hsize : 0 < size) :
    (T.commit size schema).back.present = T.present := by
  have hpos : 0 < (T.commit size schema).cursor := by
    rw [cursor_commit]
    omega
  have hbefore := before_of_back hpos
  rw [before_commit, newest, List.drop_append_of_le_length (by simp; omega)] at hbefore
  exact (List.singleton_inj.1 (List.append_inj' hbefore rfl).2).symm

theorem back_of_not_pos (h : ¬ 0 < T.cursor) : T.back = T := by
  obtain ⟨versions, cursor, cursor_lt⟩ := T
  obtain rfl : cursor = 0 := Nat.eq_zero_of_not_pos h
  rfl

theorem back_forth (h : T.cursor + 1 < T.versions.length) : T.forth.back = T := by
  rw [forth, dif_pos h]
  rfl

theorem forth_back (h : 0 < T.cursor) : T.back.forth = T := by
  obtain ⟨versions, cursor, cursor_lt⟩ := T
  obtain ⟨n, rfl⟩ := Nat.exists_eq_succ_of_ne_zero (Nat.pos_iff_ne_zero.1 h)
  exact dif_pos cursor_lt

theorem cursor_forth (h : T.cursor + 1 < T.versions.length) : T.forth.cursor = T.cursor + 1 := by
  rw [forth, dif_pos h]

end Timeline

/-! ### Stores on a timeline -/

open Timeline

variable {s t : Store} {T : Timeline} {c : Command}

/-- A store stands at the cursor of a timeline: what it remembers on either side are the versions
there, and it remembers no more than it may. -/
structure Store.Represents (s : Store) (T : Timeline) : Prop where
  sound : s.IsSound .json
  json : ∀ v ∈ T.versions, v.IsJson
  present : s.schema.sortKeys = T.present.sortKeys
  past : s.history.past.map Snapshot.restore = T.before.map fun v => .ok v.sortKeys
  future : s.history.future.map Snapshot.restore = T.after.map fun v => .ok v.sortKeys
  size : T.versions.length ≤ s.history.capacity.size + 1

namespace Store.Represents

theorem length_past (h : s.Represents T) : s.history.past.length = T.cursor := by
  have := congrArg List.length h.past
  rwa [List.length_map, List.length_map, length_before] at this

theorem length_future (h : s.Represents T) :
    s.history.future.length = T.versions.length - (T.cursor + 1) := by
  have := congrArg List.length h.future
  rwa [List.length_map, List.length_map, length_after] at this

theorem length_le (h : s.Represents T) :
    s.history.past.length + s.history.future.length ≤ s.history.capacity.size := by
  have hsize := h.size
  have hlt := T.cursor_lt
  rw [h.length_past, h.length_future]
  omega

theorem of_same (h : s.Represents T) (hschema : t.schema = s.schema)
    (hhistory : t.history = s.history) (ht : t.IsSound .json) : t.Represents T := by
  refine ⟨ht, h.json, ?_, ?_, ?_, ?_⟩
  · rw [hschema, h.present]
  · rw [hhistory, h.past]
  · rw [hhistory, h.future]
  · rw [hhistory]
    exact h.size

/-- A snapshot of the present schema is read as the version at the cursor. -/
theorem restore_captured (h : s.Represents T) {now : String} {label : Value} {noted : Snapshot}
    (captured : Snapshot.capture now s.schema label = .ok noted) :
    noted.restore = .ok T.present.sortKeys := by
  obtain ⟨htext, -, -⟩ := Snapshot.of_capture captured
  rw [Snapshot.restore, h.sound.schema.parse_exportText htext,
    Json.image_eq_sortKeys h.sound.schema.isIn, h.present]

end Store.Represents

/-! ### Edits -/

private theorem newest_map {α β : Type} (n : Nat) (f : α → β) (xs : List α) :
    (newest n xs).map f = newest n (xs.map f) := by
  rw [newest, newest, List.map_drop, List.length_map]

/-- A store that has noted its schema and got another one stands at the end of the timeline. -/
theorem Store.Represents.commit (h : s.Represents T) (ht : t.IsSound .json) {schema label : Value}
    {now : String} {noted : Snapshot} (captured : Snapshot.capture now s.schema label = .ok noted)
    (becomes : s.Becomes schema (s.history.pushPast noted).withoutFuture t) :
    t.Represents (T.commit s.history.capacity.size t.schema) := by
  have hrestore := h.restore_captured captured
  refine ⟨ht, ?_, by rw [present_commit], ?_, ?_, ?_⟩
  · intro v hv
    rcases mem_versions.1 hv with hv | rfl | hv
    · rw [before_commit] at hv
      rcases List.mem_append.1 (History.mem_newest hv) with hv | hv
      · exact h.json v (mem_versions.2 (.inl hv))
      · exact h.json v (mem_versions.2 (.inr (.inl (List.mem_singleton.1 hv))))
    · rw [present_commit]
      exact ht.schema.isIn
    · rw [after_commit] at hv
      exact absurd hv List.not_mem_nil
  · rw [becomes.history_eq, before_commit, newest_map]
    change (newest s.history.capacity.size (s.history.past ++ [noted])).map Snapshot.restore = _
    rw [newest_map, List.map_append, List.map_append, h.past, List.map_singleton,
      List.map_singleton, hrestore]
  · rw [becomes.history_eq, after_commit]
    rfl
  · rw [becomes.history_eq]
    change (newest s.history.capacity.size (T.before ++ [T.present]) ++ [t.schema]).length ≤
      s.history.capacity.size + 1
    rw [List.length_append, List.length_singleton]
    exact Nat.add_le_add_right (length_newest_le _ _) 1

/-! ### Steps -/

namespace Timeline

/-- A step to a side. -/
def turn : History.Side → Timeline → Timeline
  | .past => back
  | .future => forth

/-- There is a version to step to. -/
def Reaches (T : Timeline) : History.Side → Prop
  | .past => 0 < T.cursor
  | .future => T.cursor + 1 < T.versions.length

theorem turn_of_not_reaches {side : History.Side} (h : ¬ T.Reaches side) : T.turn side = T := by
  cases side with
  | past => exact back_of_not_pos h
  | future => exact dif_neg h

end Timeline

/-- There is a snapshot to step to exactly if there is a version. -/
theorem Store.Represents.nearest_eq_none_iff (h : s.Represents T) {side : History.Side} :
    s.history.nearest side = none ↔ ¬ T.Reaches side := by
  cases side with
  | past =>
      change s.history.past.getLast? = none ↔ ¬ 0 < T.cursor
      rw [List.getLast?_eq_none_iff, ← List.length_eq_zero_iff, h.length_past, Nat.pos_iff_ne_zero,
        not_not]
  | future =>
      have hlt := T.cursor_lt
      change s.history.future.head? = none ↔ ¬ T.cursor + 1 < T.versions.length
      rw [List.head?_eq_none_iff, ← List.length_eq_zero_iff, h.length_future]
      omega

/-- A step back takes the newest snapshot of the past for the version before the cursor. -/
private theorem Store.Represents.stepBack (h : s.Represents T) (ht : t.IsSound .json)
    {schema label : Value} {now : String} {nearest noted : Snapshot}
    (found : s.history.past.getLast? = some nearest)
    (captured : Snapshot.capture now s.schema label = .ok noted)
    (restored : nearest.restore = .ok schema)
    (becomes : s.Becomes schema (s.history.dropPast.pushFuture noted) t) : t.Represents T.back := by
  have hpos : 0 < T.cursor := by
    rw [← h.length_past]
    exact List.length_pos_of_mem (List.mem_of_getLast? found)
  have hpast := h.past
  rw [before_of_back hpos, ← List.dropLast_append_getLast? nearest found, List.map_append,
    List.map_append, List.map_singleton, List.map_singleton, restored] at hpast
  obtain ⟨hbefore, hnearest⟩ := List.append_inj' hpast rfl
  obtain rfl : schema = T.back.present.sortKeys := Except.ok.inj (List.singleton_inj.1 hnearest)
  have hroom : (noted :: s.history.future).length ≤ s.history.capacity.size := by
    have hlength := h.length_le
    rw [h.length_past] at hlength
    rw [List.length_cons]
    omega
  refine ⟨ht, h.json, ?_, ?_, ?_, ?_⟩
  · rw [becomes.schema_eq]
    have hmem : T.back.present ∈ T.back.versions := mem_versions.2 (.inr (.inl rfl))
    exact Json.sortKeys_sortKeys (h.json _ hmem)
  · rw [becomes.history_eq]
    exact hbefore
  · rw [becomes.history_eq, after_back hpos]
    change ((noted :: s.history.future).take s.history.capacity.size).map Snapshot.restore = _
    rw [List.take_of_length_le hroom, List.map_cons, List.map_cons, h.future,
      h.restore_captured captured]
  · rw [becomes.history_eq]
    exact h.size

/-- A step forward takes the nearest snapshot of the future for the version after the cursor. -/
private theorem Store.Represents.stepForth (h : s.Represents T) (ht : t.IsSound .json)
    {schema label : Value} {now : String} {nearest noted : Snapshot}
    (found : s.history.future.head? = some nearest)
    (captured : Snapshot.capture now s.schema label = .ok noted)
    (restored : nearest.restore = .ok schema)
    (becomes : s.Becomes schema (s.history.dropFuture.pushPast noted) t) :
    t.Represents T.forth := by
  have hlt : T.cursor + 1 < T.versions.length := by
    have hlength := List.length_pos_of_mem (List.mem_of_head? found)
    rw [h.length_future] at hlength
    omega
  have hversions : T.forth.versions = T.versions := by
    rw [forth, dif_pos hlt]
  have hcursor : 0 < T.forth.cursor := by
    rw [cursor_forth hlt]
    omega
  have hback := back_forth hlt
  have hfuture := h.future
  rw [← hback, after_back hcursor, ← List.cons_head?_tail found, List.map_cons, List.map_cons,
    restored] at hfuture
  obtain ⟨hnearest, hafter⟩ := List.cons.inj hfuture
  obtain rfl : schema = T.forth.present.sortKeys := Except.ok.inj hnearest
  have hroom : (s.history.past ++ [noted]).length ≤ s.history.capacity.size := by
    have hsize := h.size
    rw [List.length_append, List.length_singleton, h.length_past]
    omega
  refine ⟨ht, hversions ▸ h.json, ?_, ?_, ?_, ?_⟩
  · rw [becomes.schema_eq]
    refine Json.sortKeys_sortKeys (h.json _ ?_)
    rw [← hversions]
    exact mem_versions.2 (.inr (.inl rfl))
  · rw [becomes.history_eq, before_of_back hcursor, hback]
    change (newest s.history.capacity.size (s.history.past ++ [noted])).map Snapshot.restore = _
    rw [History.newest_eq_self hroom, List.map_append, List.map_append, h.past, List.map_singleton,
      List.map_singleton, h.restore_captured captured]
  · rw [becomes.history_eq]
    exact hafter
  · rw [becomes.history_eq, hversions]
    exact h.size

/-- Undo and redo move the cursor, unless it is at the end of the timeline already. -/
theorem Store.Represents.turn (h : s.Represents T) {side : History.Side} {r : Except Failure Reply}
    (turns : Command.Turns s side r t) : t.Represents (T.turn side) ∧
      ∀ a, r = .ok a → (a.changed = true ↔ T.Reaches side) := by
  have ht : t.IsSound .json := turns.isSound Value.Domain.isClosed_json h.sound
  cases turns with
  | atEnd found unchanged =>
      have hreaches := h.nearest_eq_none_iff.1 found
      rw [turn_of_not_reaches hreaches]
      refine ⟨h, fun a ha => ?_⟩
      cases ha
      rw [Reply.changed, unchanged]
      exact ⟨fun h => absurd h Bool.false_ne_true, fun h => absurd h hreaches⟩
  | turned found captured restored becomes changed =>
      have hreaches : T.Reaches side := by
        by_contra hreaches
        rw [h.nearest_eq_none_iff.2 hreaches] at found
        cases found
      refine ⟨?_, fun a ha => ⟨fun _ => hreaches, fun _ => changed a ha⟩⟩
      cases side with
      | past => exact h.stepBack ht found captured restored becomes
      | future => exact h.stepForth ht found captured restored becomes
  | unread found _ unread => exact absurd unread (h.sound.restore_ne_error found)
  | unwritten _ unwritten =>
      obtain ⟨noted, hnoted⟩ := h.sound.exists_captured _ _
      rw [hnoted] at unwritten
      cases unwritten

/-! ### Runs -/

/-- A command that was run, with what it answered and the schema after it. -/
structure Event where
  command : Command
  answer : Except Failure Reply
  schema : Value

/-- What a command other than undo and redo makes of a timeline. If it says that it has changed the
document, the schema after it is appended, and else nothing. One that fails may have done so before.
-/
def Timeline.Edits (size : Nat) (T : Timeline) (answer : Except Failure Reply) (schema : Value)
    (U : Timeline) : Prop :=
  match answer with
  | .ok a => U = if a.changed then T.commit size schema else T
  | .error _ => U = T ∨ U = T.commit size schema

/-- What an event makes of a timeline. Undo and redo move the cursor if there is a version to move
it to, and say so. -/
def Timeline.Follows (size : Nat) (T : Timeline) (e : Event) (U : Timeline) : Prop :=
  match e.command with
  | .undo => U = T.back ∧ ∀ a, e.answer = .ok a → (a.changed = true ↔ T.Reaches .past)
  | .redo => U = T.forth ∧ ∀ a, e.answer = .ok a → (a.changed = true ↔ T.Reaches .future)
  | _ => T.Edits size e.answer e.schema U

/-- What a sequence of events makes of a timeline. -/
def Timeline.FollowsAll (size : Nat) : Timeline → List Event → Timeline → Prop
  | T, [], U => U = T
  | T, e :: es, V => ∃ U, T.Follows size e U ∧ U.FollowsAll size es V

/-- A run of commands that bring only what JSON can carry. No state is taken over from a storage,
while anything else around the document may change between commands. -/
inductive Store.Run : Store → List Event → Store → Prop
  | nil {s : Store} : Run s [] s
  | command {s t u : Store} {c : Command} {r : Except Failure Reply} {es : List Event}
      (brings : c.Brings .json s) (notRestore : c ≠ .restore) (ran : c.run.outcome s = (r, t))
      (rest : Run t es u) : Run s (⟨c, r, t.schema⟩ :: es) u
  | surroundings {s t u : Store} {es : List Event} (same : s.SameDocument t)
      (supply : t.host.supply.GivesIds) (rest : Run t es u) : Run s es u

/-- Commands other than undo, redo and restore either leave the document alone or commit a schema.
-/
private theorem Store.Represents.edit (h : s.Represents T) {r : Except Failure Reply}
    (course : c.Course s r t) (brings : c.Brings .json s) (notTurn : ∀ side, c ≠ Command.turn side)
    (notRestore : c ≠ .restore) :
    t.Represents T ∧ (∀ a, r = .ok a → a.changed = false) ∨
      t.Represents (T.commit s.history.capacity.size t.schema) ∧
        ∀ a, r = .ok a → a.changed = true := by
  have ht : t.IsSound .json := course.isSound Value.Domain.isClosed_json h.sound brings
  cases course with
  | refused _ unchanged => exact .inl ⟨h.of_same rfl rfl ht, unchanged⟩
  | copied _ unchanged =>
      exact .inl ⟨h.of_same rfl rfl ht, fun a ha => Except.ok.inj ha ▸ unchanged⟩
  | aside kept noOutcome =>
      refine .inl ⟨h.of_same kept.schema_eq kept.history_eq ht, fun a ha => ?_⟩
      cases a with
      | outcome o => exact absurd ha (noOutcome o)
      | value v => rfl
  | committed _ captured becomes changed => exact .inr ⟨h.commit ht captured becomes, changed⟩
  | turned => exact absurd rfl (notTurn _)
  | restored | emptied => exact absurd rfl notRestore

/-- Every command takes a store along its timeline. -/
theorem Store.Represents.follows (h : s.Represents T) {r : Except Failure Reply}
    (brings : c.Brings .json s) (notRestore : c ≠ .restore) (ran : c.run.outcome s = (r, t)) :
    ∃ U, T.Follows s.history.capacity.size ⟨c, r, t.schema⟩ U ∧ t.Represents U := by
  by_cases hturn : ∃ side, c = Command.turn side
  · obtain ⟨side, rfl⟩ := hturn
    obtain ⟨ht, hchanged⟩ := h.turn ((Command.turn_run_ends side s).outcome ran)
    cases side with
    | past => exact ⟨T.back, ⟨rfl, hchanged⟩, ht⟩
    | future => exact ⟨T.forth, ⟨rfl, hchanged⟩, ht⟩
  · have notTurn : ∀ side, c ≠ Command.turn side := fun side hc => hturn ⟨side, hc⟩
    -- Only undo and redo are looked at in any other way than by their answers.
    have hfollows : ∀ U, T.Follows s.history.capacity.size ⟨c, r, t.schema⟩ U ↔
        T.Edits s.history.capacity.size r t.schema U := by
      intro U
      cases c with
      | undo => exact absurd rfl (notTurn .past)
      | redo => exact absurd rfl (notTurn .future)
      | _ => rfl
    rcases h.edit ((c.run_ends s).outcome ran) brings notTurn notRestore with ⟨ht, hr⟩ | ⟨ht, hr⟩
    · refine ⟨T, (hfollows T).2 ?_, ht⟩
      cases r with
      | error e => exact .inl rfl
      | ok a =>
          rw [Timeline.Edits, hr a rfl, if_neg Bool.false_ne_true]
    · refine ⟨_, (hfollows _).2 ?_, ht⟩
      cases r with
      | error e => exact .inr rfl
      | ok a =>
          rw [Timeline.Edits, hr a rfl, if_pos rfl]

/-- So does every run. -/
theorem Store.Represents.followsAll {es : List Event} (h : s.Represents T) (run : s.Run es t) :
    ∃ U, T.FollowsAll s.history.capacity.size es U ∧ t.Represents U := by
  induction run generalizing T with
  | nil => exact ⟨T, rfl, h⟩
  | @command s t u c r es brings notRestore ran rest ih =>
      obtain ⟨U, hU, ht⟩ := h.follows brings notRestore ran
      obtain ⟨V, hV, hu⟩ := ih ht
      rw [((c.run_ends s).outcome ran).capacity_eq] at hV
      exact ⟨V, ⟨U, hU, hV⟩, hu⟩
  | @surroundings s t u es same supply rest ih =>
      have ht : t.IsSound .json :=
        ⟨same.schema ▸ h.sound.schema, same.history ▸ h.sound.snapshots,
          same.clipboard ▸ h.sound.clipboard, supply⟩
      obtain ⟨V, hV, hu⟩ := ih (h.of_same same.schema same.history ht)
      rw [same.history] at hV
      exact ⟨V, hV, hu⟩

theorem Store.Run.capacity_eq {es : List Event} (run : s.Run es t) :
    t.history.capacity = s.history.capacity := by
  induction run with
  | nil => rfl
  | @command s t u c r es _ _ ran _ ih => rw [ih, ((c.run_ends s).outcome ran).capacity_eq]
  | surroundings same _ _ ih => rw [ih, same.history]

/-- The events of a run of some commands. -/
def Store.events (s : Store) : List Command → List Event
  | [] => []
  | c :: cs =>
    ⟨c, (c.run.outcome s).1, (c.run.outcome s).2.schema⟩ :: (c.run.outcome s).2.events cs

theorem Store.run_events {cs : List Command}
    (hcs : ∀ c ∈ cs, c ≠ .restore ∧ ∀ s, c.Brings .json s) (s : Store) :
    s.Run (s.events cs) (s.after cs) := by
  induction cs generalizing s with
  | nil => exact .nil
  | cons c cs ih =>
      obtain ⟨⟨notRestore, brings⟩, hcs⟩ := List.forall_mem_cons.1 hcs
      exact .command (brings s) notRestore rfl (ih hcs _)

/-! ### Steps back and forth -/

/-- A store after a number of steps to a side. -/
def Store.stepped (side : History.Side) (n : Nat) (s : Store) : Store :=
  Nat.iterate (fun s => ((Command.turn side).run.outcome s).2) n s

theorem Store.Represents.stepped (h : s.Represents T) (side : History.Side) (n : Nat) :
    (s.stepped side n).Represents (Nat.iterate (Timeline.turn side) n T) := by
  induction n generalizing s T with
  | zero => exact h
  | succ n ih => exact ih (h.turn (Command.turn_run_ends side s)).1

/-- As many steps forward as there were steps back lead to the same version, if there are that many
versions to step back to. -/
theorem Timeline.forth_back_iterate {n : Nat} (hn : n ≤ T.cursor) :
    Nat.iterate (turn .future) n (Nat.iterate (turn .past) n T) = T := by
  induction n generalizing T with
  | zero => rfl
  | succ n ih =>
      have hpos : 0 < T.cursor := Nat.lt_of_lt_of_le (Nat.succ_pos n) hn
      have hback : n ≤ (turn .past T).cursor := Nat.le_sub_one_of_lt hn
      rw [Function.iterate_succ_apply', Function.iterate_succ_apply, ih hback]
      exact forth_back hpos

/-! ### New stores -/

/-- A store that has just been made stands at the start of a timeline. -/
theorem Store.represents_start {host : Host} {schema : Value} {capacity : Capacity}
    {storage : Option Storage} (supply : host.supply.GivesIds)
    (hschema : Schema.IsSound .json schema) :
    (Store.start host schema capacity storage).Represents (.start schema) := by
  refine ⟨⟨hschema, fun u hu => absurd hu List.not_mem_nil, fun v hv => (by cases hv), supply⟩,
    ?_, rfl, rfl, rfl, ?_⟩
  · exact fun v hv => List.mem_singleton.1 hv ▸ hschema.isIn
  · exact Nat.le_add_left 1 _

/-- A store that is made of what JSON can carry follows a timeline, whatever is done with it short
of restoring a stored state: the present schema is the version at the cursor, the past and the
future hold the versions on either side of it, together no more than the capacity, and steps back
are made up for by as many steps forward if there are that many versions before the cursor. -/
theorem Store.Run.follows_timeline {host : Host} {schema capacity : Value}
    {storage : Option Storage} {s t : Store} {es : List Event} (supply : host.supply.GivesIds)
    (json : ∀ document, Schema.parse schema = .ok document → document.IsJson)
    (created : Store.create host schema capacity storage = .ok s) (run : s.Run es t) :
    ∃ (k : Capacity) (T : Timeline), Capacity.ofValue capacity = .ok k ∧
      (Timeline.start s.schema).FollowsAll k.size es T ∧
        t.schema.sortKeys = T.present.sortKeys ∧
        t.history.past.map Snapshot.restore = T.before.map (fun v => .ok v.sortKeys) ∧
        t.history.future.map Snapshot.restore = T.after.map (fun v => .ok v.sortKeys) ∧
        t.history.past.length + t.history.future.length ≤ k.size ∧
        ∀ n ≤ t.history.past.length,
          ((t.stepped .past n).stepped .future n).schema.sortKeys = t.schema.sortKeys := by
  obtain ⟨loaded, k, hloaded, hk, rfl⟩ := Store.create_eq_ok created
  have hsound : Schema.IsSound .json loaded := by
    rcases hloaded with rfl | hloaded
    · exact Schema.isSound_empty Value.Domain.isClosed_json.version
    · obtain ⟨hparse, hproblems⟩ := Schema.load_eq_ok_iff.1 hloaded
      exact Schema.isSound_of_problems (json _ hparse) hproblems
  obtain ⟨T, hT, ht⟩ := (Store.represents_start supply hsound).followsAll run
  have hlength := ht.length_le
  rw [run.capacity_eq] at hlength
  refine ⟨k, T, hk, hT, ht.present, ht.past, ht.future, hlength, fun n hn => ?_⟩
  have hstepped := ((ht.stepped .past n).stepped .future n).present
  rw [Timeline.forth_back_iterate (ht.length_past ▸ hn)] at hstepped
  rw [hstepped, ht.present]

/-- Two fields are added to an empty store and one is taken back. -/
theorem Store.follows_timeline_of_two_edits :
    let cs := [.addField (.textField "a"), .addField (.textField "b"), .undo]
    let t := Store.bare.after cs
    ∃ (k : Capacity) (T : Timeline), Capacity.ofValue (.int 2) = .ok k ∧
      (Timeline.start Store.bare.schema).FollowsAll k.size (Store.bare.events cs) T ∧
        t.schema.sortKeys = T.present.sortKeys ∧
        t.history.past.map Snapshot.restore = T.before.map (fun v => .ok v.sortKeys) ∧
        t.history.future.map Snapshot.restore = T.after.map (fun v => .ok v.sortKeys) ∧
        t.history.past.length + t.history.future.length ≤ k.size ∧
        ∀ n ≤ t.history.past.length,
          ((t.stepped .past n).stepped .future n).schema.sortKeys = t.schema.sortKeys := by
  refine Store.Run.follows_timeline Host.bare_givesIds ?_ Store.create_bare (Store.run_events ?_ _)
  · intro document hdocument
    exact Except.ok.inj hdocument ▸ .scalar rfl trivial
  · simp only [List.forall_mem_cons]
    exact ⟨⟨nofun, fun _ => Value.textField_isIn "a"⟩, ⟨nofun, fun _ => Value.textField_isIn "b"⟩,
      ⟨nofun, fun _ => trivial⟩, List.forall_mem_nil _⟩

/-! ### Beyond the start -/

/-- Whether a command says that it has changed a store. -/
private def Command.changes (c : Command) (s : Store) : Bool :=
  match (c.run.outcome s).1 with
  | .ok a => a.changed
  | .error _ => false

private theorem Store.Represents.added (h : s.Represents T) {size : Nat}
    (hsize : s.history.capacity.size = size) {c : Command} (brings : c.Brings .json s)
    (notTurn : ∀ side, c ≠ Command.turn side) (notRestore : c ≠ .restore)
    (changes : c.changes s = true) :
    (s.after [c]).Represents (T.commit size (s.after [c]).schema) ∧
      (s.after [c]).history.capacity.size = size := by
  have course : c.Course s (c.run.outcome s).1 (s.after [c]) := c.run_ends s
  refine ⟨?_, by rw [course.capacity_eq, hsize]⟩
  rcases h.edit course brings notTurn notRestore with ⟨-, hr⟩ | ⟨ht, -⟩
  · unfold Command.changes at changes
    split at changes
    · rename_i a ha
      rw [hr a ha] at changes
      cases changes
    · cases changes
  · exact hsize ▸ ht

private theorem length_rootFields_sortKeys {v : Value} (hv : v.IsJson) :
    (Schema.rootFields v.sortKeys).length = (Schema.rootFields v).length := by
  rw [← Json.image_eq_sortKeys hv, Schema.rootFields_image hv, List.length_map]

/-- One step back from the third version, two more lead to the first, which is only one away. -/
private theorem Store.Represents.stepped_ne (h : s.Represents T) (hcursor : T.cursor = 2)
    (hne : T.present.sortKeys ≠ T.back.present.sortKeys) :
    (((s.stepped .past 1).stepped .past 2).stepped .future 2).schema.sortKeys ≠
      (s.stepped .past 1).schema.sortKeys := by
  have hback : (s.stepped .past 1).Represents T.back := h.stepped .past 1
  have hsteps := ((hback.stepped .past 2).stepped .future 2).present
  have hstart : ¬ 0 < T.back.back.cursor := by
    change ¬ 0 < T.cursor - 1 - 1
    omega
  have hthree :
      Nat.iterate (Timeline.turn .past) 2 T.back = Nat.iterate (Timeline.turn .past) 2 T :=
    back_of_not_pos hstart
  rw [hthree, forth_back_iterate hcursor.ge] at hsteps
  rw [hsteps, hback.present]
  exact hne

/-- Two fields are added and one is taken back. Two steps back are only one, since there is no
version before the first; two steps forward then lead to a version that had been taken back. -/
theorem Store.stepped_beyond_start :
    let s := Store.bare.after [.addField (.textField "a"), .addField (.textField "b"), .undo]
    ((s.stepped .past 2).stepped .future 2).schema.sortKeys ≠ s.schema.sortKeys := by
  have h₀ : Store.bare.Represents (.start Schema.empty) :=
    Store.represents_start Host.bare_givesIds
      (Schema.isSound_empty Value.Domain.isClosed_json.version)
  have added (name : String) (side : History.Side) :
      Command.addField (.textField name) ≠ Command.turn side := by
    cases side <;> exact nofun
  obtain ⟨h₁, hsize₁⟩ := h₀.added (c := .addField (.textField "a")) rfl (Value.textField_isIn "a")
    (added "a") nofun (by decide +kernel)
  obtain ⟨h₂, -⟩ := h₁.added (c := .addField (.textField "b")) hsize₁ (Value.textField_isIn "b")
    (added "b") nofun (by decide +kernel)
  refine h₂.stepped_ne rfl ?_
  rw [present_commit, present_back_commit (by decide), present_commit]
  intro h
  have hlength := congrArg (fun v => (Schema.rootFields v).length) h
  rw [length_rootFields_sortKeys h₂.sound.schema.isIn,
    length_rootFields_sortKeys h₁.sound.schema.isIn] at hlength
  exact absurd hlength (by decide +kernel)

end FormDesigner
