import FormDesigner.Proofs.Json.Reader
import FormDesigner.Proofs.Store.Soundness

/-!
# Reachable stores

Every store that commands can make of a new one is sound, and its history keeps the capacity that it
was made with. Nothing needs to be asked of the commands but that the mappings they bring are
mappings, with one value under each text: all that is read from texts is so anyway.
-/

namespace FormDesigner

open Value (IsIn IsProper Domain)

variable {D : Domain} {s t : Store} {c : Command}

/-- The document that is edited is the same in two stores, with the history, selection and
clipboard. -/
structure Store.SameDocument (s t : Store) : Prop where
  schema : t.schema = s.schema
  history : t.history = s.history
  selected : t.selected = s.selected
  clipboard : t.clipboard = s.clipboard

/-- What can become of a new store, with a history of the given capacity, by commands of which each
is allowed where it is run. A store can be made of what can be imported. Between commands, whatever
surrounds the document may change: the time, the disk, the storage and the listeners. -/
inductive Store.Reachable (Allowed : Store → Command → Prop) (capacity : Value) : Store → Prop
  | new {host : Host} {schema : Value} {storage : Option Storage} {s : Store}
      (supply : host.supply.GivesIds) (allowed : ∀ s, Allowed s (.importSchema schema))
      (created : Store.create host schema capacity storage = .ok s) : Reachable Allowed capacity s
  | command {s t : Store} {c : Command} {r : Except Failure Reply}
      (before : Reachable Allowed capacity s) (allowed : Allowed s c)
      (ran : c.run.outcome s = (r, t)) : Reachable Allowed capacity t
  | surroundings {s t : Store} (before : Reachable Allowed capacity s) (same : s.SameDocument t)
      (supply : t.host.supply.GivesIds) : Reachable Allowed capacity t

theorem Store.create_eq_ok {host : Host} {schema capacity : Value} {storage : Option Storage}
    (h : Store.create host schema capacity storage = .ok s) :
    ∃ loaded k, (loaded = Schema.empty ∨ Schema.load schema = .ok loaded) ∧
      Capacity.ofValue capacity = .ok k ∧ s = Store.start host loaded k storage := by
  have hstart : ∀ loaded,
      (do return Store.start host loaded (← Capacity.ofValue capacity) storage) = Except.ok s →
        ∃ k, Capacity.ofValue capacity = .ok k ∧ s = Store.start host loaded k storage := by
    intro loaded h
    obtain ⟨k, hk, h⟩ := Result.bind_eq_ok.1 h
    exact ⟨k, hk, (Except.ok.inj h).symm⟩
  unfold Store.create at h
  dsimp only at h
  split at h
  · obtain ⟨k, hk⟩ := hstart _ h
    exact ⟨_, k, .inl rfl, hk⟩
  · obtain ⟨loaded, hloaded, h⟩ := Result.bind_eq_ok.1 h
    obtain ⟨k, hk⟩ := hstart _ h
    exact ⟨loaded, k, .inr hloaded, hk⟩

namespace Store.Reachable

variable {Allowed : Store → Command → Prop} {capacity : Value}

theorem isSound (hD : D.IsClosed) (hallowed : ∀ s c, Allowed s c → c.Brings D s)
    (h : s.Reachable Allowed capacity) : s.IsSound D := by
  induction h with
  | @new host schema storage s supply allowed created =>
      obtain ⟨loaded, k, hloaded, -, rfl⟩ := Store.create_eq_ok created
      refine ⟨?_, fun u hu => absurd hu List.not_mem_nil, fun v hv => (by cases hv), supply⟩
      change Schema.IsSound D loaded
      rcases hloaded with rfl | hloaded
      · exact Schema.isSound_empty hD.version
      · obtain ⟨hparse, hproblems⟩ := Schema.load_eq_ok_iff.1 hloaded
        have hbrings := hallowed (Store.start host loaded k storage) _ (allowed _)
        exact Schema.isSound_of_problems (hbrings _ hparse) hproblems
  | @command s t c r _ allowed ran ih =>
      exact ((c.run_ends s).outcome ran).isSound hD ih (hallowed s c allowed)
  | surroundings _ same supply ih =>
      exact ⟨same.schema ▸ ih.schema, same.history ▸ ih.snapshots,
        same.clipboard ▸ ih.clipboard, supply⟩

theorem capacity_eq (h : s.Reachable Allowed capacity) :
    Capacity.ofValue capacity = .ok s.history.capacity := by
  induction h with
  | new _ _ created =>
      obtain ⟨loaded, k, -, hk, rfl⟩ := Store.create_eq_ok created
      exact hk
  | @command s t c r _ _ ran ih => rw [((c.run_ends s).outcome ran).capacity_eq, ih]
  | surroundings _ same _ ih => rw [same.history, ih]

end Store.Reachable

/-! ### What any command brings -/

/-- The values that a command brings into the document are proper. -/
def Command.IsProper : Command → Prop
  | .addField field | .addChild _ field => field.IsProper
  | .updateField _ patch => patch.IsProper
  | .importSchema document => document.IsProper
  | _ => True

namespace Storage

variable {storage : Storage} {d : Disk} {kept state : Value}

private theorem isIn_of_unwrap (hkept : kept.IsIn .readable)
    (h : storage.unwrap kept = .ok (some state)) : state.IsIn .readable := by
  unfold unwrap at h
  split at h
  · obtain ⟨_, -, h⟩ := Result.bind_eq_ok.1 h
    cases h
  · split at h
    · cases h
    · dsimp only at h
      split at h
      · exact Option.some.inj (Except.ok.inj h) ▸ hkept.getOrNull trivial
      · obtain ⟨_, -, h⟩ := Result.bind_eq_ok.1 h
        cases h

private theorem isIn_of_readFile {p : Path} (h : readFile d p = .ok (some kept)) :
    kept.IsIn .readable := by
  unfold readFile at h
  split at h
  · cases h
  · cases h
  · split at h
    · cases h
    · split at h
      · cases h
      · split at h
        · rename_i hread
          exact Option.some.inj (Except.ok.inj h) ▸ Json.isIn_of_read hread
        · cases h
        · cases h

/-- A stored state is read from a text. -/
theorem isIn_of_load (h : storage.load d = .ok (some state)) : state.IsIn .readable := by
  unfold load at h
  split at h
  · cases h
  · obtain ⟨kept, hkept, h⟩ := Result.bind_eq_ok.1 h
    exact isIn_of_unwrap (Json.isIn_of_parse hkept) h
  · obtain ⟨p, -, h⟩ := Result.bind_eq_ok.1 h
    obtain ⟨kept, hkept, h⟩ := Result.bind_eq_ok.1 h
    cases kept with
    | none => cases h
    | some kept => exact isIn_of_unwrap (isIn_of_readFile hkept) h

end Storage

/-- What a snapshot has besides the text of a schema comes from the value that it is read from. -/
theorem Snapshot.isIn_of_ofValue {now : String} {v : Value} {u : Snapshot} (hv : v.IsIn .readable)
    (h : ofValue now v = .ok u) : u.label.IsIn .readable ∧ u.takenAt.IsIn .readable := by
  obtain ⟨_, -, h⟩ := Result.bind_eq_ok.1 h
  obtain ⟨_, -, h⟩ := Result.bind_eq_ok.1 h
  obtain rfl := Except.ok.inj h
  refine ⟨?_, ?_⟩
  · dsimp only
    cases hlabel : v.get? "label" with
    | none => exact .text _
    | some label => exact hv.get? hlabel
  · dsimp only
    split
    · exact hv.getOrNull trivial
    · exact .text _

namespace History

/-- Every snapshot of a history that is read has what all snapshots have that are read from values
that JSON can stand for. -/
theorem forall_of_ofValue {now : String} {capacity : Capacity} {v : Value} {h : History}
    {P : Snapshot → Prop} (hread : ofValue now capacity v = .ok h) (hv : v.IsIn .readable)
    (hP : ∀ w : Value, w.IsIn .readable → ∀ u, Snapshot.ofValue now w = .ok u → P u) :
    ∀ u ∈ h.snapshots, P u := by
  have hside : ∀ {n : String} {entries : List Value},
      ((v.get? n).getD (.list [])).elements = .ok entries → ∀ w ∈ entries, w.IsIn .readable := by
    intro n entries hentries
    cases hn : v.get? n with
    | none =>
        rw [hn] at hentries
        obtain rfl := Except.ok.inj hentries
        exact List.forall_mem_nil _
    | some list =>
        rw [hn] at hentries
        exact (hv.get? hn).of_elements hentries
  refine ofValue_induction (P := fun h => ∀ u ∈ h.snapshots, P u) hread
    (fun u hu => absurd hu List.not_mem_nil) ?_ ?_
  · intro entries hentries w hw s hs h hh u hu
    rcases mem_snapshots_pushPast hu with rfl | hu
    · exact hP w (hside hentries w hw) u hs
    · exact hh u hu
  · intro entries hentries w hw s hs h hh u hu
    rcases mem_snapshots_extendFuture hu with rfl | hu
    · exact hP w (hside hentries w hw) u hs
    · exact hh u hu

end History

theorem Command.IsProper.brings (hc : c.IsProper) (s : Store) : c.Brings .anything s := by
  cases c with
  | addField | addChild | updateField => exact hc
  | importSchema => exact fun schema h => Schema.isProper_of_parse hc h
  | restore =>
      intro storage state now stored _ hload hread
      obtain ⟨source, history, hsource, hschema, hhistory, hread, -⟩ := StoredState.read_eq_ok hread
      have hstate : state.IsIn .readable := Storage.isIn_of_load hload
      have hhistory : history.IsIn .readable := by
        rcases hhistory with rfl | rfl
        · exact hstate.getOrNull trivial
        · exact .empty
      refine ⟨Schema.isProper_of_parse ?_ (Schema.load_eq_ok_iff.1 hschema).1, fun u hu => ?_⟩
      · exact (hstate.of_entry hsource).isProper
      · obtain ⟨hlabel, htaken⟩ := History.forall_of_ofValue hread hhistory
          (fun _ hw _ hs => Snapshot.isIn_of_ofValue hw hs) u hu
        exact ⟨hlabel.isProper, htaken.isProper, fun schema h => (Json.isIn_of_parse h).isProper⟩
  | _ => trivial

/-! ### Valid documents -/

/-- A machine with an empty disk, which counts its ids. -/
def Host.bare : Host where
  disk := .empty
  supply := ⟨fun n => "id" ++ toString n, fun _ => 'a', 0, 0⟩
  clock := default

theorem Host.bare_givesIds : Host.bare.supply.GivesIds := fun n h => by
  have := congrArg String.toList h
  simp [Host.bare] at this

/-- A text field with nothing but what every field needs. -/
def Value.textField (name : String) : Value :=
  .ofFields
    [("id", .text name), ("key", .text name), ("type", .text "text"), ("label", .text name)]

theorem Value.textField_isIn (name : String) : (Value.textField name).IsIn D := by
  refine IsIn.ofFields (by simp) ?_
  simp only [List.forall_mem_cons]
  exact ⟨.text _, .text _, .text _, .text _, List.forall_mem_nil _⟩

/-- A section with nothing but what every section needs. -/
def Value.sectionField (name : String) (children : List Value) : Value :=
  .ofFields
    [("id", .text name), ("key", .text name), ("type", .text "section"), ("label", .text name),
      ("children", .list children)]

theorem Value.sectionField_isIn (name : String) {children : List Value}
    (hchildren : ∀ c ∈ children, c.IsIn D) : (Value.sectionField name children).IsIn D := by
  refine IsIn.ofFields (by simp) ?_
  simp only [List.forall_mem_cons]
  exact ⟨.text _, .text _, .text _, .text _, .list hchildren, List.forall_mem_nil _⟩

/-- A store for an empty schema that remembers two steps each way. -/
def Store.bare : Store := .start .bare Schema.empty ⟨.int 2, 2, by decide⟩ none

theorem Store.create_bare : Store.create .bare .null (.int 2) none = .ok Store.bare := rfl

/-- A store that starts like this one, with or without a storage, can be reached. -/
theorem Store.Reachable.bare {Allowed : Store → Command → Prop}
    (allowed : ∀ s, Allowed s (.importSchema .null)) (storage : Option Storage) :
    ({ Store.bare with storage } : Store).Reachable Allowed (.int 2) := by
  have created : create .bare .null (.int 2) storage = .ok { Store.bare with storage } := rfl
  exact .new Host.bare_givesIds allowed created

theorem Command.importSchema_null_brings (hD : D.node .null) (s : Store) :
    (Command.importSchema .null).Brings D s := by
  intro schema h
  cases (show Except.ok Value.null = Except.ok schema from h)
  exact .scalar rfl hD

/-- A store after some commands, whatever they answer. -/
def Store.after (s : Store) (cs : List Command) : Store :=
  cs.foldl (fun s c => (c.run.outcome s).2) s

theorem Store.Reachable.after {Allowed : Store → Command → Prop} {capacity : Value}
    {cs : List Command} (h : s.Reachable Allowed capacity) (hcs : ∀ c ∈ cs, ∀ s, Allowed s c) :
    (s.after cs).Reachable Allowed capacity := by
  induction cs generalizing s with
  | nil => exact h
  | cons c cs ih =>
      obtain ⟨hc, hcs⟩ := List.forall_mem_cons.1 hcs
      exact ih (h.command (hc s) rfl) hcs

theorem Store.reachable_of_brings {cs : List Command} (hcs : ∀ c ∈ cs, ∀ s, c.Brings .json s) :
    (Store.bare.after cs).Reachable (fun s c => c.Brings .json s) (.int 2) :=
  (Store.Reachable.bare (Command.importSchema_null_brings trivial) none).after hcs

end FormDesigner
