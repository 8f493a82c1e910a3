import FormDesigner.Failure

/-!
# Work that can fail half-way

Most operations either succeed or leave their surroundings alone. A few change a state step by step
and keep what has been changed when a later step fails; they are `Work` on that state.
-/

namespace FormDesigner

/-- Work on a state. What has been changed stays changed when the work fails. -/
abbrev Work (σ : Type) := ExceptT Failure (StateM σ)

namespace Work

variable {σ τ α : Type}

/-- A result that was worked out without the state. -/
def ofExcept : Except Failure α → Work σ α
  | .ok a => pure a
  | .error e => throw e

/-- The outcome of work on a state, and the state after it. -/
def outcome (w : Work σ α) (s : σ) : Except Failure α × σ := w.run s

/-- Work on a part of the state. -/
def onPart (get : σ → τ) (put : σ → τ → σ) (w : Work τ α) : Work σ α := fun s =>
  let (r, t) := w.outcome (get s)
  (r, put s t)

/-- Work whose failure is a result. -/
def attempt (w : Work σ α) : Work σ (Except Failure α) := fun s =>
  let (r, s) := w.outcome s
  (.ok r, s)

@[simp] theorem outcome_pure (a : α) (s : σ) : (pure a : Work σ α).outcome s = (.ok a, s) := rfl

@[simp] theorem outcome_throw (e : Failure) (s : σ) :
    (throw e : Work σ α).outcome s = (.error e, s) := rfl

@[simp] theorem outcome_ofExcept (r : Except Failure α) (s : σ) :
    (ofExcept r : Work σ α).outcome s = (r, s) := by
  cases r <;> rfl

@[simp] theorem outcome_onPart (get : σ → τ) (put : σ → τ → σ) (w : Work τ α) (s : σ) :
    (onPart get put w).outcome s = ((w.outcome (get s)).1, put s (w.outcome (get s)).2) := rfl

@[simp] theorem outcome_attempt (w : Work σ α) (s : σ) :
    (attempt w).outcome s = (.ok (w.outcome s).1, (w.outcome s).2) := rfl

end Work

end FormDesigner
