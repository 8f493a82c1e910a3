import FormDesigner.Proofs.Schema.Range
import FormDesigner.Proofs.Store.Reachable

/-!
# Exported schemas

The schema of a store whose documents JSON can carry can always be exported. Another store imports
the text, and has the same schema then, exactly if no field in the tree has reversed bounds: loading
rejects such fields, but no edit keeps them out.
-/

namespace FormDesigner

open Work
open Value (IsIn IsJson Domain)

/-- The settings of a storage are of the right kinds. -/
structure Storage.IsTyped (g : Storage) : Prop where
  name : ∃ n, g.name = .text n
  version : g.version.IsJson

namespace Storage

variable {g : Storage} {d : Disk} {now : String} {state : Value}

theorem IsTyped.envelope (hg : g.IsTyped) (hstate : state.IsJson) (now : String) :
    (g.envelope now state).IsJson := by
  obtain ⟨n, hn⟩ := hg.name
  refine IsIn.ofFields (by simp) ?_
  simp only [List.forall_mem_cons]
  exact ⟨hn ▸ .text n, hg.version, .text _, hstate, List.forall_mem_nil _⟩

/-- Work went well or failed as a storage may fail, which a store gets over. -/
def Spares {α : Type} (r : Except Failure α) : Prop :=
  ∀ e, r = .error e → ∃ message cause, e = .storage message cause

theorem spares_ok {α : Type} (a : α) : Spares (.ok a) := fun _ h => by cases h

theorem spares_storage {α : Type} (message : String) (cause : Option Failure) :
    Spares (.error (.storage message cause) : Except Failure α) := fun _ h =>
  ⟨message, cause, (Except.error.inj h).symm⟩

theorem IsTyped.saveFile_ends (hg : g.IsTyped) (directory : Path) (kept : Value) :
    (g.saveFile directory kept).Ends d fun r _ => Spares r := by
  obtain ⟨n, hn⟩ := hg.name
  unfold saveFile
  rw [ends_bind, ends_modifyGet, andThen_ok]
  dsimp only
  rw [ends_bind, ends_attempt]
  refine ends_of_outcome fun r t _ => ?_
  rw [andThen_ok]
  split
  · exact spares_ok _
  · rw [ends_bind, ends_ofExcept, file, hn]
    exact spares_storage _ _

/-- Saving what JSON can carry goes well or fails as storages may fail. -/
theorem IsTyped.save_ends (hg : g.IsTyped) (hstate : state.IsJson) :
    (g.save now state).Ends d fun r _ => Spares r := by
  obtain ⟨text, htext⟩ := Json.exists_write .compact (hg.envelope hstate now)
  unfold save
  dsimp only
  split
  · exact spares_storage _ _
  · split
    · rw [ends_bind, ends_ofExcept, htext]
      exact spares_ok _
    · rw [ends_bind]
      refine (hg.saveFile_ends _ _).mono fun r t hr => ?_
      cases r with
      | error e =>
          obtain ⟨message, cause, rfl⟩ := hr e rfl
          exact spares_storage _ _
      | ok _ => exact spares_ok _

end Storage

namespace Store

variable {s : Store}

/-- A storage, if there is one, can take the state: its settings are of the right kinds, and what is
selected, which is saved too, is something that JSON can carry. -/
def CanSave (s : Store) : Prop := ∀ g ∈ s.storage, g.IsTyped ∧ s.selected.IsJson

theorem canSave_of_no_storage (h : s.storage.isNone = true) : s.CanSave := fun g hg => by
  rw [Option.isNone_iff_eq_none.1 h] at hg
  cases hg

theorem IsSound.exists_history (hs : s.IsSound .json) :
    ∃ history, s.history.toValue = .ok history ∧ history.IsJson := by
  have hside : ∀ us : List Snapshot, (∀ u ∈ us, u ∈ s.history.snapshots) →
      ∃ vs, us.mapM Snapshot.toValue = .ok vs ∧ ∀ v ∈ vs, v.IsJson := by
    intro us hus
    refine Result.exists_mapM fun u hu => ?_
    obtain ⟨⟨schema, hschema, hsound⟩, hlabel, htaken⟩ := hs.snapshots u (hus u hu)
    refine ⟨.ofFields [("schema", schema), ("label", u.label), ("takenAt", u.takenAt)], ?_, ?_⟩
    · rw [Snapshot.toValue, hschema]
      rfl
    · refine IsIn.ofFields (by simp) ?_
      simp only [List.forall_mem_cons]
      exact ⟨hsound.isIn, hlabel, htaken, List.forall_mem_nil _⟩
  obtain ⟨past, hpast, hpasts⟩ := hside s.history.past fun u hu => List.mem_append_left _ hu
  obtain ⟨future, hfuture, hfutures⟩ :=
    hside s.history.future fun u hu => List.mem_append_right _ hu
  refine ⟨History.sides past future, ?_, ?_⟩
  · rw [History.toValue, hpast, hfuture]
    rfl
  · refine IsIn.ofFields (by simp) ?_
    simp only [List.forall_mem_cons]
    exact ⟨.list hpasts, .list hfutures, List.forall_mem_nil _⟩

theorem IsSound.exists_state (hs : s.IsSound .json) (hselected : s.selected.IsJson) :
    ∃ state, s.state = .ok state ∧ state.IsJson := by
  obtain ⟨history, hhistory, hjson⟩ := hs.exists_history
  refine ⟨_, by rw [Store.state, hhistory]; rfl, ?_⟩
  refine IsIn.ofFields (by simp) ?_
  simp only [List.forall_mem_cons]
  exact ⟨hs.schema.isIn, hjson, hselected, List.forall_mem_nil _⟩

end Store

namespace Editing

variable {s : Store}

/-- Saving does not stand in the way of a change. -/
theorem persist_succeeds (hs : s.IsSound .json) (hsave : s.CanSave) :
    persist.Ends s fun r t => r = .ok () ∧ t.schema = s.schema := by
  unfold persist
  rw [ends_bind, ends_get, andThen_ok]
  cases hg : s.storage with
  | none => exact ⟨rfl, rfl⟩
  | some g =>
      obtain ⟨htyped, hselected⟩ := hsave g hg
      obtain ⟨state, hstate, hjson⟩ := hs.exists_state hselected
      dsimp only
      rw [ends_bind, ends_get, andThen_ok, ends_bind, ends_ofExcept, hstate, andThen_ok, ends_bind,
        timestamp, ends_bind, ends_get, andThen_ok, ends_pure, andThen_ok, ends_bind, ends_attempt,
        onDisk, ends_onPart]
      refine (htyped.save_ends hjson).mono fun r d hr => ?_
      cases r with
      | ok g' => exact ⟨rfl, rfl⟩
      | error e =>
          obtain ⟨message, cause, rfl⟩ := hr e rfl
          exact ⟨rfl, rfl⟩

end Editing

end FormDesigner
