import FormDesigner.Proofs.Store.Course
import FormDesigner.Proofs.Store.Reachable

/-!
# Commands that change nothing

An outcome that says that nothing was changed is true to its word. Only the supply of names may be
another after a refusal, since checks use up names, and what is copied goes to the clipboard.
-/

namespace FormDesigner

open Work

/-- Two stores differ at most in the names that are used up and in what is on the clipboard. -/
structure Store.IsUntouched (s t : Store) : Prop where
  schema : t.schema = s.schema
  history : t.history = s.history
  selected : t.selected = s.selected
  storage : t.storage = s.storage
  disk : t.host.disk = s.host.disk
  listeners : t.listeners = s.listeners
  notices : t.notices = s.notices

/-- A command whose outcome is that nothing was changed, for whatever reason, leaves the schema, the
history, the selection and what is stored as they were and tells no listener of anything; only
copying changes the clipboard. -/
theorem Command.untouched_of_not_changed {s t : Store} {c : Command} {o : Outcome}
    (ran : c.run.outcome s = (.ok (.outcome o), t)) (unchanged : o.changed = false) :
    s.IsUntouched t ∧ ((∀ id, c ≠ .copy id) → t.clipboard = s.clipboard) := by
  have course : c.Course s (.ok (.outcome o)) t := (c.run_ends s).outcome ran
  have hchanged : ¬ ∀ a, (Except.ok (.outcome o) : Except Failure Reply) = .ok a →
      a.changed = true := by
    intro h
    have ho : o.changed = true := h _ rfl
    rw [ho] at unchanged
    cases unchanged
  cases course with
  | refused => exact ⟨⟨rfl, rfl, rfl, rfl, rfl, rfl, rfl⟩, fun _ => rfl⟩
  | @copied id => exact ⟨⟨rfl, rfl, rfl, rfl, rfl, rfl, rfl⟩, fun h => absurd rfl (h id)⟩
  | aside _ noOutcome | restored _ _ _ noOutcome | emptied noOutcome =>
      exact absurd rfl (noOutcome o)
  | committed _ _ _ changed => exact absurd changed hchanged
  | turned turns =>
      cases turns with
      | atEnd => exact ⟨⟨rfl, rfl, rfl, rfl, rfl, rfl, rfl⟩, fun _ => rfl⟩
      | turned _ _ _ _ changed => exact absurd changed hchanged

/-- A field that is not there cannot be removed. -/
theorem Command.untouched_of_removing_nothing :
    let t := ((Command.removeField (.text "a")).run.outcome Store.bare).2
    ((Command.removeField (.text "a")).run.outcome Store.bare).1 =
        .ok (.outcome (.failure .notFound "No field with id 'a'" (.text "a") [])) ∧
      Store.bare.IsUntouched t ∧
        ((∀ id, Command.removeField (.text "a") ≠ .copy id) →
          t.clipboard = Store.bare.clipboard) := by
  have hfind : Store.bare.find? (.text "a") = none :=
    Option.isNone_iff_eq_none.1 (by decide +kernel)
  have answer : (Command.removeField (.text "a")).run.Ends Store.bare fun r _ =>
      r = .ok (.outcome (.failure .notFound "No field with id 'a'" (.text "a") [])) := by
    refine (ends_map _).2 ?_
    unfold Editing.removeField
    rw [ends_bind, ends_get, andThen_ok, hfind]
    rfl
  exact ⟨answer, Command.untouched_of_not_changed (Prod.ext answer rfl) rfl⟩

end FormDesigner
