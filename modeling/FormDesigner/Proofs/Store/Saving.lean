import FormDesigner.Proofs.Result
import FormDesigner.Proofs.Work
import FormDesigner.Store.Basic

/-!
# What is saved after a change

Every change is announced, and announcing it saves the state first. So what a storage in memory holds
after a change is the state of the store as it is then, unless the state cannot be written at all or
the storage has stopped taking states.
-/

namespace FormDesigner

open Work

namespace Storage

variable {g : Storage} {d : Disk} {now : String} {state : Value}

/-- A storage in memory that takes states. -/
structure TakesStates (g : Storage) : Prop where
  medium : ∃ held, g.medium = .memory held
  unblocked : g.isBlocked = false

/-- What becomes of a storage in memory when a state is saved. -/
theorem TakesStates.save_ends (hg : g.TakesStates)
    {Q : Except Failure Storage → Disk → Prop} :
    (g.save now state).Ends d Q ↔
      Q ((Json.write .compact (g.envelope now state)).map fun text =>
        { g with medium := .memory (some text) }) d := by
  obtain ⟨held, hmedium⟩ := hg.medium
  unfold save
  rw [if_neg (by rw [hg.unblocked]; decide), hmedium]
  dsimp only
  rw [ends_bind, ends_ofExcept]
  cases Json.write .compact (g.envelope now state) <;> rfl

/-- Saving in a folder or not at all leaves the storage what it is. -/
theorem save_of_not_takesStates (hg : ¬ g.TakesStates) :
    (g.save now state).Ends d fun r _ => ∀ g', r = .ok g' → g' = g := by
  unfold save
  dsimp only
  split
  · exact fun _ h => by cases h
  · split
    · rename_i hblocked _ held hmedium
      exact absurd ⟨⟨held, hmedium⟩, by simpa using hblocked⟩ hg
    · rw [ends_bind]
      refine ends_of_outcome fun r t _ => ?_
      cases r with
      | error e => exact fun _ h => by cases h
      | ok _ => exact fun _ h => (Except.ok.inj h).symm

end Storage

/-- What a storage in memory holds is the state of the store, if that can be written. -/
def Store.IsUpToDate (s : Store) : Prop :=
  ∀ g ∈ s.storage, g.TakesStates → ∀ state, s.state = .ok state → ∃ now, ∀ text,
    Json.write .compact (g.envelope now state) = .ok text → g.medium = .memory (some text)

namespace Editing

variable {s : Store}

/-- What saving comes to is taken over if it went well and else passed over or passed on. -/
private theorem saved_ends {saved : Except Failure Storage} {Q : Store → Prop} :
    (∀ g, saved = .ok g → Q { s with storage := some g }) → (∀ e, saved = .error e → Q s) →
      (match saved with
        | .ok storage => modify fun s => { s with storage := some storage }
        | .error (.storage ..) => return ()
        | .error e => throw e : Editing Unit).Ends s fun _ t => Q t := by
  intro hok herror
  cases saved with
  | ok g => exact hok g rfl
  | error e => cases e <;> exact herror _ rfl

theorem persist_saves : persist.Ends s fun _ t => t.IsUpToDate := by
  unfold persist
  rw [ends_bind, ends_get, andThen_ok]
  cases hg : s.storage with
  | none =>
      dsimp only
      rw [ends_pure]
      intro g h
      rw [hg] at h
      cases h
  | some g =>
      dsimp only
      rw [ends_bind, ends_get, andThen_ok, ends_bind, ends_ofExcept]
      cases hstate : s.state with
      | error e =>
          change s.IsUpToDate
          intro _ _ _ state h
          rw [hstate] at h
          cases h
      | ok state =>
          rw [andThen_ok, ends_bind, timestamp, ends_bind, ends_get, andThen_ok, ends_pure,
            andThen_ok, ends_bind, ends_attempt, onDisk, ends_onPart]
          by_cases htakes : g.TakesStates
          · rw [htakes.save_ends, andThen_ok]
            refine saved_ends (fun g' hg' => ?_) fun e he => ?_
            · obtain ⟨text, htext, rfl⟩ := Result.map_eq_ok.1 hg'
              intro g' hmem _ state' hstate'
              obtain rfl := Option.some.inj hmem
              obtain rfl := Except.ok.inj (hstate.symm.trans hstate')
              refine ⟨s.host.timestamp, fun text' htext' => ?_⟩
              rw [Except.ok.inj (htext.symm.trans htext')]
            · intro g' hmem _ state' hstate'
              obtain rfl := Option.some.inj (hg.symm.trans hmem)
              obtain rfl := Except.ok.inj (hstate.symm.trans hstate')
              refine ⟨s.host.timestamp, fun text' htext' => ?_⟩
              rw [htext'] at he
              cases he
          · refine (Storage.save_of_not_takesStates htakes).mono fun r d hr => ?_
            rw [andThen_ok]
            refine saved_ends (fun g' hg' => ?_) fun e he => ?_
            · intro g'' hmem htakes'
              obtain rfl := Option.some.inj hmem
              exact absurd (hr _ hg' ▸ htakes') htakes
            · intro g' hmem htakes'
              obtain rfl := Option.some.inj (hg.symm.trans hmem)
              exact absurd htakes' htakes

theorem announce_saves : announce.Ends s fun _ t => t.IsUpToDate := by
  unfold announce
  rw [ends_bind]
  refine persist_saves.mono fun r t ht => ?_
  cases r with
  | error e => exact ht
  | ok _ => exact ht

end Editing

end FormDesigner
