import FormDesigner.Proofs.Result
import FormDesigner.Proofs.Work
import FormDesigner.Store.History

/-!
# What becomes of a history

An edit is noted only if the schema before it can be written down. A step back and a step forward
are the same but for their side: they take the nearest snapshot off one list, write down the present
schema for the other, and then read the snapshot. A step that fails on its way has already taken the
snapshot.
-/

namespace FormDesigner

open Work

namespace Snapshot

variable {now : String} {schema label : Value} {s : Snapshot}

/-- A snapshot holds the canonical text of the schema that it was taken of. -/
theorem of_capture (h : capture now schema label = .ok s) :
    Schema.exportText schema = .ok s.payload ∧ s.label = label ∧ s.takenAt = .text now := by
  unfold capture at h
  obtain ⟨text, htext, h⟩ := Result.bind_eq_ok.1 h
  obtain rfl := Except.ok.inj h
  exact ⟨htext, rfl, rfl⟩

theorem exists_capture {text : String} (h : Schema.exportText schema = .ok text) (now : String)
    (label : Value) : ∃ s, capture now schema label = .ok s ∧ s.payload = text := by
  refine ⟨⟨text, label, .text now⟩, ?_, rfl⟩
  unfold capture
  rw [h]
  rfl

/-- A schema cannot be noted exactly if it cannot be written down. -/
theorem capture_eq_error_iff {e : Failure} :
    capture now schema label = .error e ↔ Schema.exportText schema = .error e := by
  unfold capture
  cases Schema.exportText schema with
  | error e' => exact ⟨fun h => congrArg _ (Except.error.inj h), fun h => congrArg _ (Except.error.inj h)⟩
  | ok text =>
      refine ⟨fun h => ?_, fun h => ?_⟩
      · cases h
      · cases h

end Snapshot

namespace History

variable {h : History} {now : String} {present label : Value} {s : Snapshot}

/-- All snapshots of a history. -/
def snapshots (h : History) : List Snapshot := h.past ++ h.future

/-! ### What is kept -/

theorem mem_newest {α : Type} {n : Nat} {xs : List α} {x : α} (hx : x ∈ newest n xs) : x ∈ xs :=
  List.mem_of_mem_drop hx

theorem newest_eq_self {α : Type} {n : Nat} {xs : List α} (h : xs.length ≤ n) :
    newest n xs = xs := by
  rw [newest, Nat.sub_eq_zero_of_le h, List.drop_zero]

theorem mem_snapshots_pushPast {u : Snapshot} (hu : u ∈ (h.pushPast s).snapshots) :
    u = s ∨ u ∈ h.snapshots := by
  rcases List.mem_append.1 hu with hu | hu
  · rcases List.mem_append.1 (mem_newest hu) with hu | hu
    · exact .inr (List.mem_append_left _ hu)
    · exact .inl (List.mem_singleton.1 hu)
  · exact .inr (List.mem_append_right _ hu)

theorem mem_snapshots_pushFuture {u : Snapshot} (hu : u ∈ (h.pushFuture s).snapshots) :
    u = s ∨ u ∈ h.snapshots := by
  rcases List.mem_append.1 hu with hu | hu
  · exact .inr (List.mem_append_left _ hu)
  · rcases List.mem_cons.1 (List.mem_of_mem_take hu) with hu | hu
    · exact .inl hu
    · exact .inr (List.mem_append_right _ hu)

theorem mem_snapshots_extendFuture {u : Snapshot} (hu : u ∈ (h.extendFuture s).snapshots) :
    u = s ∨ u ∈ h.snapshots := by
  rcases List.mem_append.1 hu with hu | hu
  · exact .inr (List.mem_append_left _ hu)
  · rcases List.mem_append.1 (mem_newest hu) with hu | hu
    · exact .inr (List.mem_append_right _ hu)
    · exact .inl (List.mem_singleton.1 hu)

theorem mem_snapshots_withoutFuture {u : Snapshot} (hu : u ∈ h.withoutFuture.snapshots) :
    u ∈ h.snapshots := by
  rcases List.mem_append.1 hu with hu | hu
  · exact List.mem_append_left _ hu
  · exact absurd hu List.not_mem_nil

/-! ### Histories that are read -/

/-- What a history has and keeps with every entry that is read into it. -/
private theorem readAll_induction {push : History → Snapshot → History} {entries : List Value}
    {P : History → Prop} {h' : History} (hread : readAll now push h entries = .ok h') (hh : P h)
    (hpush : ∀ v ∈ entries, ∀ s, Snapshot.ofValue now v = .ok s → ∀ h, P h → P (push h s)) :
    P h' := by
  induction entries generalizing h with
  | nil => exact Except.ok.inj hread ▸ hh
  | cons v entries ih =>
      rw [readAll, List.foldlM_cons] at hread
      obtain ⟨h₁, hstep, hrest⟩ := Result.bind_eq_ok.1 hread
      obtain ⟨s, hs, hstep⟩ := Result.bind_eq_ok.1 hstep
      obtain ⟨hv, hentries⟩ := List.forall_mem_cons.1 hpush
      refine ih hrest ?_ hentries
      exact Except.ok.inj hstep ▸ hv s hs h hh

/-- What a new history has and keeps with every entry on either side. -/
theorem ofValue_induction {capacity : Capacity} {v : Value} {P : History → Prop}
    (hread : ofValue now capacity v = .ok h) (hempty : P (empty capacity))
    (hpast : ∀ entries, ((v.get? "past").getD (.list [])).elements = .ok entries →
      ∀ w ∈ entries, ∀ s, Snapshot.ofValue now w = .ok s → ∀ h, P h → P (h.pushPast s))
    (hfuture : ∀ entries, ((v.get? "future").getD (.list [])).elements = .ok entries →
      ∀ w ∈ entries, ∀ s, Snapshot.ofValue now w = .ok s → ∀ h, P h → P (h.extendFuture s)) :
    P h := by
  unfold ofValue at hread
  split at hread
  · cases hread
  · obtain ⟨past, hpastItems, hread⟩ := Result.bind_eq_ok.1 hread
    obtain ⟨h₁, hpastRead, hread⟩ := Result.bind_eq_ok.1 hread
    obtain ⟨future, hfutureItems, hfutureRead⟩ := Result.bind_eq_ok.1 hread
    have h₁ : P h₁ := readAll_induction hpastRead hempty (hpast past hpastItems)
    exact readAll_induction hfutureRead h₁ (hfuture future hfutureItems)

/-- A history that is read has the capacity that it is given. -/
theorem capacity_ofValue {capacity : Capacity} {v : Value}
    (hread : ofValue now capacity v = .ok h) :
    h.capacity = capacity :=
  ofValue_induction (P := fun h => h.capacity = capacity) hread rfl (fun _ _ _ _ _ _ _ hh => hh)
    fun _ _ _ _ _ _ _ hh => hh

/-! ### Edits and steps -/

theorem ends_record {Q : Except Failure Unit → History → Prop} :
    (record now present label).Ends h Q ↔
      match Snapshot.capture now present label with
      | .ok s => Q (.ok ()) (h.pushPast s).withoutFuture
      | .error e => Q (.error e) h := by
  unfold record
  rw [ends_bind, ends_ofExcept]
  cases Snapshot.capture now present label <;> rfl

/-- Where a step goes. -/
inductive Side where
  | past
  | future

/-- The snapshot that a step goes to. -/
def nearest (h : History) : Side → Option Snapshot
  | .past => h.past.getLast?
  | .future => h.future.head?

/-- What is left when the nearest snapshot is taken off a side. -/
def without (h : History) : Side → History
  | .past => h.dropPast
  | .future => h.dropFuture

/-- A snapshot put where it is found by a step back from a side. -/
def leaving (h : History) : Side → Snapshot → History
  | .past => h.pushFuture
  | .future => h.pushPast

/-- A step to a side. -/
def turn : Side → String → Value → Work History (Option Value)
  | .past => undo
  | .future => redo

variable {side : Side} {u : Snapshot}

@[simp] theorem capacity_without : (h.without side).capacity = h.capacity := by
  cases side <;> rfl

@[simp] theorem capacity_leaving : (h.leaving side s).capacity = h.capacity := by
  cases side <;> rfl

theorem mem_snapshots_of_nearest (hs : h.nearest side = some s) : s ∈ h.snapshots := by
  cases side with
  | past => exact List.mem_append_left _ (List.mem_of_getLast? hs)
  | future => exact List.mem_append_right _ (List.mem_of_head? hs)

theorem mem_snapshots_of_without (hu : u ∈ (h.without side).snapshots) : u ∈ h.snapshots := by
  cases side with
  | past =>
      rcases List.mem_append.1 hu with hu | hu
      · exact List.mem_append_left _ (List.dropLast_subset _ hu)
      · exact List.mem_append_right _ hu
  | future =>
      rcases List.mem_append.1 hu with hu | hu
      · exact List.mem_append_left _ hu
      · exact List.mem_append_right _ (List.mem_of_mem_tail hu)

theorem mem_snapshots_leaving (hu : u ∈ (h.leaving side s).snapshots) :
    u = s ∨ u ∈ h.snapshots := by
  cases side with
  | past => exact mem_snapshots_pushFuture hu
  | future => exact mem_snapshots_pushPast hu

private theorem ends_step {rest : History} {push : History → Snapshot → History}
    {Q : Except Failure (Option Value) → History → Prop} :
    (do
      let current ← Work.ofExcept (Snapshot.capture now present s.label)
      modify fun h => push h current
      return some (← Work.ofExcept s.restore) : Work History (Option Value)).Ends rest Q ↔
        match Snapshot.capture now present s.label with
        | .ok current => Q (s.restore.map some) (push rest current)
        | .error e => Q (.error e) rest := by
  rw [ends_bind, ends_ofExcept]
  cases Snapshot.capture now present s.label with
  | error e => rfl
  | ok current =>
      rw [andThen_ok, ends_bind, ends_modify, andThen_ok, ends_bind, ends_ofExcept]
      cases s.restore <;> rfl

/-- How a step ends, whichever way it goes. -/
theorem ends_turn {Q : Except Failure (Option Value) → History → Prop} :
    (turn side now present).Ends h Q ↔
      match h.nearest side with
      | none => Q (.ok none) h
      | some s =>
        match Snapshot.capture now present s.label with
        | .ok current => Q (s.restore.map some) ((h.without side).leaving side current)
        | .error e => Q (.error e) (h.without side) := by
  cases side with
  | past =>
      change (undo now present).Ends h Q ↔ match h.past.getLast? with | none => _ | some s => _
      unfold undo
      rw [ends_bind, ends_get, andThen_ok]
      cases h.past.getLast? with
      | none => rfl
      | some s =>
          dsimp only
          rw [ends_bind, ends_modify, andThen_ok]
          exact ends_step
  | future =>
      change (redo now present).Ends h Q ↔ match h.future.head? with | none => _ | some s => _
      unfold redo
      rw [ends_bind, ends_get, andThen_ok]
      cases h.future with
      | nil => rfl
      | cons s rest =>
          dsimp only
          rw [ends_bind, ends_modify, andThen_ok]
          exact ends_step

end History

end FormDesigner
