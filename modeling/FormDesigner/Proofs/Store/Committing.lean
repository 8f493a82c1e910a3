import FormDesigner.Proofs.Store.Export

/-!
# Fields that become the present ones

Every edit that goes through ends alike: the schema is noted in the history, gets its new fields, and
is saved and announced. In a sound store this goes well for all fields that could be those of a sound
schema. Fields that fit are refused for nothing but an id or a key that occurs twice.
-/

namespace FormDesigner

open Work
open Command (AreSound)
open Value (gathered)

namespace Store

/-- A store with other fields and the schema before it in the history. -/
def withFields (s : Store) (fields : List Value) (noted : Snapshot) : Store :=
  { s with
    schema := s.schema.put "fields" (.list fields)
    history := (s.history.pushPast noted).withoutFuture }

/-- A store gets other fields, which can be undone, and stays as it was in all but what is saved and
announced. -/
structure Commits (s : Store) (fields : List Value) (t : Store) : Prop where
  schema : t.schema = s.schema.put "fields" (.list fields)
  history : ∃ noted : Snapshot, s.exportText = .ok noted.payload ∧
    t.history = (s.history.pushPast noted).withoutFuture
  selected : t.selected = s.selected
  clipboard : t.clipboard = s.clipboard
  supply : t.host.supply = s.host.supply

theorem commits_withFields {s : Store} {now : String} {label : Value} {noted : Snapshot}
    (fields : List Value) (captured : Snapshot.capture now s.schema label = .ok noted) :
    s.Commits fields (s.withFields fields noted) :=
  ⟨rfl, ⟨noted, (Snapshot.of_capture captured).1, rfl⟩, rfl, rfl, rfl⟩

/-- The fields that are put into a schema are those at its root. -/
theorem IsSound.rootFields_eq {D : Value.Domain} {s t : Store} {fields : List Value}
    (hs : s.IsSound D) (h : t.schema = s.schema.put "fields" (.list fields)) :
    Schema.rootFields t.schema = fields := by
  refine rootFields_of_fields ?_
  rw [Store.fields, h, Value.getOrNull_put_self hs.schema.shape.isMap]

end Store

namespace Editing

variable {D : Value.Domain} {s : Store} {fields : List Value}

/-! ### Refusals -/

theorem gathered_texts (hfits : ∀ x ∈ fields, x.Fits) {n : String}
    (hn : n = "id" ∨ n = "key") : ∀ w ∈ fields.flatMap (gathered n), ∃ s, w = .text s := by
  intro w hw
  obtain ⟨x, hx, hw⟩ := List.mem_flatMap.1 hw
  exact (hfits x hx).gathered_text hn w hw

/-- An id or a key that occurs twice can be named. -/
theorem exists_clash? (hfits : ∀ x ∈ fields, x.Fits) : ∃ r, clash? fields = .ok r := by
  have hplain : ∀ {n : String}, n = "id" ∨ n = "key" →
      ∀ {w ws}, duplicates (fields.flatMap (gathered n)) = w :: ws → ∃ s, w.plain = .ok s := by
    intro n hn w ws h
    have hmem := mem_of_mem_duplicates (h ▸ List.mem_cons_self : w ∈ duplicates _)
    obtain ⟨s, rfl⟩ := gathered_texts hfits hn w hmem
    exact ⟨s, rfl⟩
  unfold clash?
  dsimp only
  rw [Forest.ofValues_eq_map, Forest.ids_map, Forest.keys_map]
  split
  · next h =>
      obtain ⟨s, hs⟩ := hplain (.inl rfl) h
      exact ⟨_, by rw [hs]; rfl⟩
  · split
    · next h =>
        obtain ⟨s, hs⟩ := hplain (.inr rfl) h
        exact ⟨_, by rw [hs]; rfl⟩
    · exact ⟨_, rfl⟩

theorem clash?_of_areSound (h : AreSound D fields) : clash? fields = .ok none := by
  have hfits : ∀ x ∈ fields, x.Fits := fun x hx => (h.each x hx).2
  unfold clash?
  dsimp only
  rw [Forest.ofValues_eq_map, Forest.ids_map, Forest.keys_map,
    (duplicates_eq_nil_iff (gathered_texts hfits (.inl rfl))).2 h.ids,
    (duplicates_eq_nil_iff (gathered_texts hfits (.inr rfl))).2 h.keys]
  rfl

/-! ### What a commit leaves -/

/-- Saving and announcing a change leaves what was changed. -/
theorem announce_commits {t : Store} (h : s.Commits fields t) :
    announce.Ends t fun _ t => s.Commits fields t :=
  (announce_keeps (fun _ _ _ _ h => ⟨h.1, h.2, h.3, h.4, h.5⟩) t h).1

theorem announce_succeeds (hs : s.IsSound .json) (hsave : s.CanSave) :
    announce.Ends s fun r _ => r = .ok () := by
  unfold announce
  rw [ends_bind]
  refine (persist_succeeds hs hsave).mono fun r t ⟨hr, _⟩ => ?_
  rw [hr]
  exact rfl

/-- A commit notes the schema and announces the store that has the new fields. -/
theorem ends_commit {noted : Snapshot} {label : String} {id : Value}
    (captured : Snapshot.capture s.host.timestamp s.schema (.text label) = .ok noted)
    {Q : Except Failure Outcome → Store → Prop} :
    (commit fields label id).Ends s Q ↔
      announce.Ends (s.withFields fields noted) (andThen (fun _ => pure (.success label id)) Q) := by
  unfold commit
  rw [ends_bind, ends_get, andThen_ok, ends_bind, ends_onHistory, History.ends_record, captured]
  dsimp only
  rw [andThen_ok, ends_bind, ends_modify, andThen_ok, ends_bind]
  exact Iff.rfl

theorem commit_leaves (fields : List Value) (label : String) (id : Value) :
    (commit fields label id).Ends s fun r t =>
      ∀ o, r = .ok o → o = .success label id ∧ s.Commits fields t := by
  cases captured : Snapshot.capture s.host.timestamp s.schema (.text label) with
  | error e =>
      unfold commit
      rw [ends_bind, ends_get, andThen_ok, ends_bind, ends_onHistory, History.ends_record, captured]
      exact nofun
  | ok noted =>
      rw [ends_commit captured]
      refine (announce_commits (Store.commits_withFields fields captured)).mono fun r t h => ?_
      cases r with
      | error e => exact nofun
      | ok _ => exact fun _ ho => ⟨(Except.ok.inj ho).symm, h⟩

/-- Fields that were committed are the present ones. -/
theorem commitChecked_leaves (fields : List Value) (label : String) (id : Value) :
    (commitChecked fields label id).Ends s fun r t =>
      ∀ o, r = .ok o → o.ok = true → o = .success label id ∧ s.Commits fields t := by
  unfold commitChecked
  rw [ends_bind, ends_ofExcept]
  cases hclash : clash? fields with
  | error e => exact nofun
  | ok clash =>
      cases clash with
      | some o =>
          rintro _ ⟨⟩ hok
          rw [(isRefusal_clash? hclash).ok] at hok
          cases hok
      | none =>
          rw [andThen_ok]
          exact (commit_leaves fields label id).mono fun _ _ h o ho _ => h o ho

/-! ### Commits that go well -/

/-- Fields are the present ones, and the edit says so if that can be saved. -/
structure Committed (s : Store) (fields : List Value) (label : String) (id : Value)
    (r : Except Failure Outcome) (t : Store) : Prop where
  commits : s.Commits fields t
  answer : s.CanSave → r = .ok (.success label id)

/-- Sound fields can be committed. -/
theorem commit_committed (hs : s.IsSound .json) (hfields : AreSound .json fields) (label : String)
    (id : Value) : (commit fields label id).Ends s (Committed s fields label id) := by
  obtain ⟨noted, captured⟩ := hs.exists_captured s.host.timestamp (.text label)
  have hu : (s.withFields fields noted).IsSound .json := by
    refine hs.becomes ⟨rfl, rfl, rfl, .refl _⟩
      (hs.schema.put_fields hfields.each hfields.ids hfields.keys) fun w hw => ?_
    rcases History.mem_snapshots_pushPast (History.mem_snapshots_withoutFuture hw) with rfl | hw
    · exact hs.captured Value.Domain.isClosed_json (.text _) captured
    · exact hs.snapshots w hw
  have hcommits := announce_commits (Store.commits_withFields fields captured)
  have hannounced := announce_succeeds hu
  rw [ends_commit captured]
  refine ends_of_outcome fun r t ran => ?_
  cases r with
  | error e =>
      refine ⟨hcommits.outcome ran, fun hsave => ?_⟩
      cases (hannounced hsave).outcome ran
  | ok _ => exact ⟨hcommits.outcome ran, fun _ => rfl⟩

/-- Fields that fit are committed if they can stand together, and else are refused. -/
theorem commitChecked_decides (hs : s.IsSound .json) (each : ∀ x ∈ fields, x.IsJson ∧ x.Fits)
    (label : String) (id : Value) :
    (commitChecked fields label id).Ends s fun r t =>
      (AreSound .json fields → Committed s fields label id r t) ∧
        (¬ AreSound .json fields → t = s ∧ ∃ o, r = .ok o ∧ o.ok = false) := by
  unfold commitChecked
  rw [ends_bind, ends_ofExcept]
  obtain ⟨clash, hclash⟩ := exists_clash? fun x hx => (each x hx).2
  rw [hclash, andThen_ok]
  cases clash with
  | none =>
      have hsound := AreSound.of_clash? each hclash
      refine (commit_committed hs hsound label id).mono fun r t h => ⟨fun _ => h, fun hnot => ?_⟩
      exact absurd hsound hnot
  | some o =>
      refine ⟨fun hsound => ?_, fun _ => ⟨rfl, o, rfl, (isRefusal_clash? hclash).ok⟩⟩
      rw [clash?_of_areSound hsound] at hclash
      cases hclash

theorem commitChecked_committed (hs : s.IsSound .json) (hfields : AreSound .json fields)
    (label : String) (id : Value) :
    (commitChecked fields label id).Ends s (Committed s fields label id) :=
  (commitChecked_decides hs hfields.each label id).mono fun _ _ h => h.1 hfields

end Editing

end FormDesigner
