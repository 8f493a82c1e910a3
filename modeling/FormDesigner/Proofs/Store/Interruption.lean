import FormDesigner.Proofs.Store.Reachable

/-!
# Commands that stop half-way

Undo, redo, removal and import write the present schema down when they have already taken a snapshot
off the history or the selection away. Whether they can stop there is a matter of the schema alone:
nothing but sets, moments, octets and integers of too many digits keeps a schema from being written,
and the check of its shape lets some of them pass. As long as the schema has none of them, every
command goes through or leaves everything as it was; once it has, each of these commands fails, and
what it had taken by then is lost.
-/

namespace FormDesigner

open Work

/-- A store has been left as it was, or the schema that it had is noted in full where the history
keeps what was edited or stepped away from. -/
inductive Store.Settles (s : Store) : Store → Prop
  | unchanged {t : Store} (schema : t.schema = s.schema) (history : t.history = s.history)
      (selected : t.selected = s.selected) : Settles s t
  | edited {t : Store} {noted : Snapshot} (payload : s.exportText = .ok noted.payload)
      (history : t.history = (s.history.pushPast noted).withoutFuture) : Settles s t
  | turned {t : Store} {side : History.Side} {nearest noted : Snapshot}
      (found : s.history.nearest side = some nearest) (payload : s.exportText = .ok noted.payload)
      (label : noted.label = nearest.label) (restored : nearest.restore = .ok t.schema)
      (history : t.history = (s.history.without side).leaving side noted) : Settles s t

namespace Command

variable {s t : Store} {c : Command} {r : Except Failure Reply}

/-- A command on a sound store whose schema can be exported does not stop half-way. -/
theorem Course.settles {D : Value.Domain} {text : String} (h : c.Course s r t) (hs : s.IsSound D)
    (hexport : s.exportText = .ok text) (notSelect : ∀ id, c ≠ .select id)
    (notRestore : c ≠ .restore) : s.Settles t := by
  cases h with
  | refused | copied => exact .unchanged rfl rfl rfl
  | aside kept _ cause =>
      rcases cause with ⟨id, rfl, -⟩ | ⟨e, he⟩
      · exact absurd rfl (notSelect id)
      · rw [hexport] at he
        cases he
  | committed _ captured becomes =>
      exact .edited (Snapshot.of_capture captured).1 becomes.history_eq
  | turned turns =>
      cases turns with
      | atEnd => exact .unchanged rfl rfl rfl
      | turned found captured restored becomes =>
          obtain ⟨payload, label, -⟩ := Snapshot.of_capture captured
          exact .turned found payload label (becomes.schema_eq ▸ restored) becomes.history_eq
      | unread found _ unread => exact absurd unread (hs.restore_ne_error found)
      | unwritten _ unwritten =>
          have he := Snapshot.capture_eq_error_iff.1 unwritten
          rw [Store.exportText, he] at hexport
          cases hexport
  | restored | emptied => exact absurd rfl notRestore

end Command

namespace Editing

variable {s u : Store} {e : Failure} {t : Store} {α : Type}

/-- Work that first notes the present schema fails where it stands if that cannot be written. -/
private theorem noting_fails (hexport : u.exportText = .error e) (label : Value)
    (w : Unit → Editing Outcome) :
    (do
      let s ← get
      onHistory (History.record s.host.timestamp s.schema label) >>= w : Editing Outcome).Ends u
        fun r t => r = .error e ∧ t = u := by
  have captured : Snapshot.capture u.host.timestamp u.schema label = .error e :=
    Snapshot.capture_eq_error_iff.2 hexport
  rw [ends_bind, ends_get, andThen_ok, ends_bind, ends_onHistory, History.ends_record, captured]
  exact ⟨rfl, rfl⟩

private theorem turn_fails (hexport : s.exportText = .error e) {side : History.Side}
    {nearest : Snapshot} (found : s.history.nearest side = some nearest) (o : Outcome)
    (label : String) :
    (do
      let s ← get
      match ← onHistory (History.turn side s.host.timestamp s.schema) with
      | none => return o
      | some schema => present schema label : Editing Outcome).Ends s
        fun r t => r = .error e ∧ t = { s with history := s.history.without side } := by
  have captured : Snapshot.capture s.host.timestamp s.schema nearest.label = .error e :=
    Snapshot.capture_eq_error_iff.2 hexport
  rw [ends_bind, ends_get, andThen_ok, ends_bind, ends_onHistory, History.ends_turn, found]
  dsimp only
  rw [captured]
  exact ⟨rfl, rfl⟩

private theorem removeField_fails (hexport : s.exportText = .error e) {id : Value} {f : Field}
    (found : s.find? id = some f) (hashable : s.selected.isHashable = true) :
    (removeField id).Ends s fun r t => r = .error e ∧
      t = { s with selected := if s.selected.among (Forest.ids [f]) then .null else s.selected } := by
  unfold removeField
  rw [ends_bind, ends_get, andThen_ok, found]
  dsimp only
  have hcommit : ∀ u : Store, u.exportText = .error e → ∀ fields,
      (commit fields "remove_field" id).Ends u fun r t => r = .error e ∧ t = u :=
    fun u hu fields => noting_fails hu (.text "remove_field") _
  unfold deselect
  rw [ends_bind, ends_bind, ends_get, andThen_ok, hashable]
  simp only [Bool.not_true, Bool.false_eq_true, if_false]
  split
  · exact hcommit { s with selected := .null } hexport _
  · exact hcommit s hexport _

private theorem importSchema_fails (hexport : s.exportText = .error e) {document schema : Value}
    (loaded : Schema.load document = .ok schema) :
    (importSchema document).Ends s
      fun r t => r = .error e ∧ t = { s with selected := .null } := by
  have hdeselected : ({ s with selected := .null } : Store).exportText = .error e := hexport
  unfold importSchema
  rw [loaded]
  dsimp only
  rw [ends_bind, ends_modify, andThen_ok]
  exact noting_fails hdeselected (.text "import_schema") _

end Editing

namespace Command

variable {s : Store} {e : Failure}

/-- The answer to an export is the text of the schema or the reason why there is none. -/
theorem exportText_outcome (s : Store) :
    exportText.run.outcome s = (s.exportText.map fun text => .value (.text text), s) := by
  have hends : exportText.run.Ends s fun r t =>
      r = s.exportText.map (fun text => .value (.text text)) ∧ t = s := by
    unfold Command.run
    rw [ends_bind, ends_get, andThen_ok, ends_bind, ends_ofExcept]
    cases s.exportText with
    | error e => exact ⟨rfl, rfl⟩
    | ok text => exact ⟨rfl, rfl⟩
  exact Prod.ext hends.1 hends.2

private theorem outcome_of_ends {w : Editing Outcome} {t : Store}
    (h : w.Ends s fun r u => r = .error e ∧ u = t) :
    (Reply.outcome <$> w).outcome s = (.error e, t) := by
  have hmap : (Reply.outcome <$> w).Ends s fun r u => r = .error e ∧ u = t := by
    refine (ends_map _).2 (h.mono fun r u hru => ?_)
    obtain ⟨rfl, rfl⟩ := hru
    exact ⟨rfl, rfl⟩
  exact Prod.ext hmap.1 hmap.2

end Command

/-- The schema of a store can be exported exactly if everything in it can be written as JSON. As long
as it can, every command but selecting and restoring leaves the store as it was or gets as far as
noting the whole schema, so nothing is lost on the way. When it cannot, a step back or forward fails
and drops the snapshot that it would have gone to, and a removal or an import that would go through
fails and drops the selection. -/
theorem Store.Reachable.settles_iff_writable {s : Store} {capacity : Value}
    (h : s.Reachable (fun _ c => c.IsProper) capacity) :
    ((∃ text, Command.exportText.run.outcome s = (.ok (.value (.text text)), s)) ↔
        s.schema.IsIn .writable) ∧
      (s.schema.IsIn .writable → ∀ c : Command, (∀ id, c ≠ .select id) → c ≠ .restore →
        s.Settles (c.run.outcome s).2) ∧
      (¬ s.schema.IsIn .writable → ∃ e,
        (∀ side nearest, s.history.nearest side = some nearest →
          (Command.turn side).run.outcome s =
            (.error e, { s with history := s.history.without side })) ∧
        (∀ id f, s.find? id = some f → s.selected.isHashable = true →
          (Command.removeField id).run.outcome s =
            (.error e, { s with
              selected := if s.selected.among (Forest.ids [f]) then .null else s.selected })) ∧
        ∀ document schema, Schema.load document = .ok schema →
          (Command.importSchema document).run.outcome s =
            (.error e, { s with selected := .null })) := by
  have hs := h.isSound Value.Domain.isClosed_anything fun s c hc => hc.brings s
  have hwrite : (∃ text, s.exportText = .ok text) ↔ s.schema.IsIn .writable :=
    Json.write_isOk .canonical hs.schema.textKeyed
  refine ⟨?_, fun hwritable c notSelect notRestore => ?_, fun hwritable => ?_⟩
  · rw [← hwrite, Command.exportText_outcome]
    refine exists_congr fun text => ?_
    cases s.exportText <;> simp [Except.map]
  · obtain ⟨text, hexport⟩ := hwrite.2 hwritable
    exact ((c.run_ends s).outcome rfl).settles hs hexport notSelect notRestore
  · obtain ⟨e, he⟩ : ∃ e, s.exportText = .error e := by
      cases hexport : s.exportText with
      | error e => exact ⟨e, rfl⟩
      | ok text => exact absurd (hwrite.1 ⟨text, hexport⟩) hwritable
    refine ⟨e, fun side nearest found => ?_, fun id f found hashable => ?_,
      fun document schema loaded => ?_⟩
    · cases side with
      | past => exact Command.outcome_of_ends (Editing.turn_fails he found _ "undo")
      | future => exact Command.outcome_of_ends (Editing.turn_fails he found _ "redo")
    · exact Command.outcome_of_ends (Editing.removeField_fails he found hashable)
    · exact Command.outcome_of_ends (Editing.importSchema_fails he loaded)

/-! ### An integer of too many digits -/

/-- The least integer that cannot be written out. -/
def tooLong : Int := (Nat.pow 10 maxIntegerDigits : Nat)

/-- A number field that has an integer as its default. -/
def Value.numberField (standard : Int) : Value :=
  .ofFields
    [("id", .text "a"), ("key", .text "a"), ("type", .text "number"), ("label", .text "A"),
      ("defaultValue", .int standard)]

theorem isNone_integerText?_tooLong : integerText? tooLong = none := by
  rw [integerText?, if_neg]
  rw [tooLong, Int.natAbs_natCast]
  exact Nat.lt_irrefl _

theorem Value.numberField_isProper (standard : Int) : (Value.numberField standard).IsProper := by
  refine IsIn.ofFields (by simp) ?_
  simp only [List.forall_mem_cons]
  exact ⟨.text _, .text _, .text _, .text _, .scalar rfl trivial, List.forall_mem_nil _⟩

theorem Value.numberField_writable {standard : Int}
    (h : (Value.numberField standard).IsIn .writable) : (integerText? standard).isSome = true := by
  have hdefault : (Value.int standard).IsIn .writable :=
    h.of_mem (e := (.text "defaultValue", .int standard)) (by simp)
  exact hdefault.node_of_scalar rfl

/-- The field is added, and when that is to be undone the store fails and has nothing more to undo,
with the field still there. -/
theorem Store.snapshot_dropped_by_undo :
    let s := Store.bare.after [.addField (.numberField tooLong)]
    s.history.past.length = 1 ∧ ∃ e, Command.undo.run.outcome s =
      (.error e, { s with history := s.history.without .past }) := by
  intro s
  have start : Store.bare.Reachable (fun _ c => c.IsProper) (.int 2) :=
    .bare (fun _ => .scalar (v := .null) rfl trivial) none
  have added : s.Reachable (fun _ c => c.IsProper) (.int 2) :=
    start.after (List.forall_mem_singleton.2 fun _ => Value.numberField_isProper tooLong)
  have hlength : s.history.past.length = 1 := by decide +kernel
  have hwritable : ¬ s.schema.IsIn .writable := by
    intro h
    have noted : s.history ≠ Store.bare.history := fun heq => by
      rw [heq] at hlength
      cases hlength
    obtain ⟨fs, -, hschema, -⟩ :=
      ((Command.addField (.numberField tooLong)).run_ends Store.bare).added noted
    have hfields : s.schema.get? "fields" = some (.list (fs ++ [.numberField tooLong])) :=
      hschema ▸ Value.get?_put_self rfl
    have hfield : (Value.numberField tooLong).IsIn .writable :=
      Value.IsIn.list_iff.1 (h.get? hfields) _ (by simp)
    have := Value.numberField_writable hfield
    rw [isNone_integerText?_tooLong] at this
    cases this
  obtain ⟨e, hturn, -⟩ := (Store.Reachable.settles_iff_writable added).2.2 hwritable
  obtain ⟨nearest, found⟩ : ∃ nearest, s.history.nearest .past = some nearest :=
    Option.isSome_iff_exists.1 (by decide +kernel)
  exact ⟨hlength, e, hturn .past nearest found⟩

end FormDesigner
