import FormDesigner.Work

/-!
# Reasoning about work

`w.Ends s Q` says that work `w` on the state `s` leaves a result and a state that satisfy `Q`,
whether the work fails or not. It is computed step by step: what a sequence leaves is what its
second part leaves after the first, or what the first leaves when that fails.
-/

namespace FormDesigner

namespace Work

variable {σ τ α β : Type}

/-- The result of work on a state, and the state after it, are as `Q` says. -/
def Ends (w : Work σ α) (s : σ) (Q : Except Failure α → σ → Prop) : Prop :=
  Q (w.outcome s).1 (w.outcome s).2

/-- What `Q` says of a failure, and what `f` has to leave after a success. -/
def andThen (f : α → Work σ β) (Q : Except Failure β → σ → Prop) : Except Failure α → σ → Prop
  | .ok a, t => (f a).Ends t Q
  | .error e, t => Q (.error e) t

variable {Q R : Except Failure α → σ → Prop} {w : Work σ α} {s : σ}

theorem ends_iff : w.Ends s Q ↔ Q (w.outcome s).1 (w.outcome s).2 := Iff.rfl

theorem Ends.outcome (h : w.Ends s Q) {r : Except Failure α} {t : σ} (hw : w.outcome s = (r, t)) :
    Q r t := by
  have h' : Q (w.outcome s).1 (w.outcome s).2 := h
  rwa [hw] at h'

theorem Ends.mono (h : w.Ends s Q) (hQR : ∀ r t, Q r t → R r t) : w.Ends s R := hQR _ _ h

theorem ends_of_outcome (h : ∀ r t, w.outcome s = (r, t) → Q r t) : w.Ends s Q := h _ _ rfl

@[simp] theorem ends_pure (a : α) : (pure a : Work σ α).Ends s Q ↔ Q (.ok a) s := Iff.rfl

@[simp] theorem ends_ofExcept (r : Except Failure α) :
    (ofExcept r : Work σ α).Ends s Q ↔ Q r s := by
  rw [ends_iff, outcome_ofExcept]

@[simp] theorem ends_get {Q : Except Failure σ → σ → Prop} :
    (get : Work σ σ).Ends s Q ↔ Q (.ok s) s := Iff.rfl

@[simp] theorem ends_set {Q : Except Failure PUnit → σ → Prop} (t : σ) :
    (set t : Work σ PUnit).Ends s Q ↔ Q (.ok ⟨⟩) t := Iff.rfl

@[simp] theorem ends_modify {Q : Except Failure PUnit → σ → Prop} (f : σ → σ) :
    (modify f : Work σ PUnit).Ends s Q ↔ Q (.ok ⟨⟩) (f s) := Iff.rfl

@[simp] theorem ends_modifyGet (f : σ → α × σ) :
    (modifyGet f : Work σ α).Ends s Q ↔ Q (.ok (f s).1) (f s).2 := Iff.rfl

@[simp] theorem ends_onPart (get : σ → τ) (put : σ → τ → σ) (w : Work τ α) :
    (onPart get put w).Ends s Q ↔ w.Ends (get s) fun r t => Q r (put s t) := Iff.rfl

@[simp] theorem ends_attempt {Q : Except Failure (Except Failure α) → σ → Prop} :
    (attempt w).Ends s Q ↔ w.Ends s fun r t => Q (.ok r) t := Iff.rfl

theorem outcome_bind (f : α → Work σ β) :
    (w >>= f).outcome s =
      match w.outcome s with
      | (.ok a, t) => (f a).outcome t
      | (.error e, t) => (.error e, t) := by
  change (ExceptT.bindCont (fun a => f a) (w.outcome s).1) (w.outcome s).2 = _
  rcases w.outcome s with ⟨_ | _, t⟩ <;> rfl

@[simp] theorem ends_bind (f : α → Work σ β) {Q : Except Failure β → σ → Prop} :
    (w >>= f).Ends s Q ↔ w.Ends s (andThen f Q) := by
  rw [ends_iff, outcome_bind, ends_iff]
  rcases w.outcome s with ⟨_ | _, t⟩ <;> rfl

@[simp] theorem ends_map (f : α → β) {Q : Except Failure β → σ → Prop} :
    (f <$> w).Ends s Q ↔ w.Ends s fun r t => Q (r.map f) t := by
  rw [map_eq_pure_bind, ends_bind, ends_iff, ends_iff]
  rcases w.outcome s with ⟨_ | _, t⟩ <;> rfl

@[simp] theorem andThen_ok (f : α → Work σ β) (Q : Except Failure β → σ → Prop) (a : α) (t : σ) :
    andThen f Q (.ok a) t ↔ (f a).Ends t Q := Iff.rfl

/-! ### Invariants -/

/-- Work that keeps an invariant, also when it fails, and gives only results of a kind. -/
def Keeps (I : σ → Prop) (w : Work σ α) (P : α → Prop) : Prop :=
  ∀ s, I s → w.Ends s fun r t => I t ∧ ∀ a, r = .ok a → P a

variable {I : σ → Prop} {J : τ → Prop} {P P' : α → Prop} {S : β → Prop} {f : α → Work σ β}

theorem keeps_true : Keeps (fun _ => True) w fun _ => True :=
  fun _ _ => ⟨trivial, fun _ _ => trivial⟩

theorem keeps_pure {a : α} (ha : P a) : Keeps I (pure a) P := fun _ hs =>
  ⟨hs, fun _ h => Except.ok.inj h ▸ ha⟩

theorem keeps_throw {e : Failure} : Keeps I (throw e : Work σ α) P := fun _ hs =>
  ⟨hs, fun _ h => by cases h⟩

theorem keeps_ofExcept {r : Except Failure α} (hr : ∀ a, r = .ok a → P a) :
    Keeps I (ofExcept r) P := fun s hs => by
  rw [ends_ofExcept]
  exact ⟨hs, hr⟩

theorem keeps_get : Keeps I get I := fun _ hs => ⟨hs, fun _ h => Except.ok.inj h ▸ hs⟩

theorem keeps_modify {g : σ → σ} (hg : ∀ s, I s → I (g s)) : Keeps I (modify g) fun _ => True :=
  fun s hs => ⟨hg s hs, fun _ _ => trivial⟩

theorem keeps_modifyGet {g : σ → α × σ} (hg : ∀ s, I s → I (g s).2 ∧ P (g s).1) :
    Keeps I (modifyGet g) P := fun s hs => ⟨(hg s hs).1, fun _ h => Except.ok.inj h ▸ (hg s hs).2⟩

theorem Keeps.bind (hw : Keeps I w P) (hf : ∀ a, P a → Keeps I (f a) S) : Keeps I (w >>= f) S := by
  intro s hs
  rw [ends_bind]
  refine (hw s hs).mono fun r t ⟨ht, hr⟩ => ?_
  cases r with
  | ok a => exact hf a (hr a rfl) t ht
  | error e => exact ⟨ht, fun _ h => by cases h⟩

theorem Keeps.map {g : α → β} (hw : Keeps I w P) (hg : ∀ a, P a → S (g a)) :
    Keeps I (g <$> w) S := by
  rw [map_eq_pure_bind]
  exact hw.bind fun a ha => keeps_pure (hg a ha)

theorem Keeps.onPart {get : σ → τ} {put : σ → τ → σ} {w : Work τ α} (hw : Keeps J w P)
    (hget : ∀ s, I s → J (get s)) (hput : ∀ s t, I s → J t → I (put s t)) :
    Keeps I (onPart get put w) P := fun s hs => by
  rw [ends_onPart]
  exact (hw (get s) (hget s hs)).mono fun _ t ⟨ht, hr⟩ => ⟨hput s t hs ht, hr⟩

theorem Keeps.attempt (hw : Keeps I w P) :
    Keeps I (attempt w) fun r => ∀ a, r = .ok a → P a := fun s hs => by
  rw [ends_attempt]
  exact (hw s hs).mono fun _ _ ⟨ht, hr⟩ => ⟨ht, fun _ h => Except.ok.inj h ▸ hr⟩

end Work

end FormDesigner
