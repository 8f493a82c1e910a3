import FormDesigner.Proofs.Result

/-!
# Computations with a state

`Ends E x s Q` says that a computation `x` from the state `s` fails only as `E` says and otherwise
leaves a result and a state that satisfy `Q`. It is computed step by step: what a sequence leaves is
what its second part leaves after the first. `Keeps E I x P` says so of all states in which an
invariant `I` holds, which then holds after the computation too.
-/

namespace FormDesigner

namespace Stateful

variable {σ ε α β : Type}

/-- The computation fails only as `E` says, and leaves a result and a state as `Q` says. -/
def Ends (E : ε → Prop) (x : StateT σ (Except ε) α) (s : σ) (Q : α → σ → Prop) : Prop :=
  match x.run s with
  | .ok (a, t) => Q a t
  | .error e => E e

variable {E : ε → Prop} {x : StateT σ (Except ε) α} {f : α → StateT σ (Except ε) β} {s : σ}
variable {Q R : α → σ → Prop}

theorem ends_of_run {a : α} {t : σ} (h : x.run s = .ok (a, t)) : Ends E x s Q ↔ Q a t := by
  rw [Ends, h]

theorem Ends.ok (h : Ends E x s Q) {a : α} {t : σ} (hx : x.run s = .ok (a, t)) : Q a t :=
  (ends_of_run hx).1 h

theorem Ends.error (h : Ends E x s Q) {e : ε} (hx : x.run s = .error e) : E e := by
  rwa [Ends, hx] at h

theorem Ends.mono (h : Ends E x s Q) (hQR : ∀ a t, Q a t → R a t) : Ends E x s R := by
  unfold Ends at *
  split
  · next heq =>
      rw [heq] at h
      exact hQR _ _ h
  · next heq =>
      rw [heq] at h
      exact h

@[simp] theorem ends_pure (a : α) : Ends E (pure a) s Q ↔ Q a s := Iff.rfl

@[simp] theorem ends_get {Q : σ → σ → Prop} : Ends E (get : StateT σ (Except ε) σ) s Q ↔ Q s s :=
  Iff.rfl

@[simp] theorem ends_modify {Q : PUnit → σ → Prop} (g : σ → σ) :
    Ends E (modify g : StateT σ (Except ε) PUnit) s Q ↔ Q ⟨⟩ (g s) := Iff.rfl

@[simp] theorem ends_throw (e : ε) : Ends E (throw e) s Q ↔ E e := Iff.rfl

theorem ends_bind {Q : β → σ → Prop} :
    Ends E (x >>= f) s Q ↔ Ends E x s fun a t => Ends E (f a) t Q := by
  unfold Ends
  rw [StateT.run_bind]
  cases x.run s with
  | ok r => rfl
  | error e => rfl

/-! ### Invariants -/

/-- The computation keeps an invariant, gives only results of a kind, and fails only as `E` says. -/
def Keeps (E : ε → Prop) (I : σ → Prop) (x : StateT σ (Except ε) α) (P : α → Prop) : Prop :=
  ∀ s, I s → Ends E x s fun a t => I t ∧ P a

variable {I : σ → Prop} {P : α → Prop} {S : β → Prop}

theorem keeps_pure {a : α} (ha : P a) : Keeps E I (pure a) P := fun _ hs => ⟨hs, ha⟩

theorem keeps_throw {e : ε} (he : E e) : Keeps E I (throw e : StateT σ (Except ε) α) P :=
  fun _ _ => he

theorem keeps_get : Keeps E I get I := fun _ hs => ⟨hs, hs⟩

theorem keeps_modify {g : σ → σ} (hg : ∀ s, I s → I (g s)) :
    Keeps E I (modify g) fun _ => True := fun s hs => ⟨hg s hs, trivial⟩

theorem Keeps.bind (hx : Keeps E I x P) (hf : ∀ a, P a → Keeps E I (f a) S) :
    Keeps E I (x >>= f) S := fun s hs =>
  ends_bind.2 ((hx s hs).mono fun a t ⟨ht, ha⟩ => hf a ha t ht)

/-- A first step of which only the failures and the state matter. -/
theorem Keeps.next (hx : Keeps E I x P) (hf : ∀ a, Keeps E I (f a) S) : Keeps E I (x >>= f) S :=
  hx.bind fun a _ => hf a

theorem Keeps.ite {c : Prop} [Decidable c] {y : StateT σ (Except ε) α} (hx : c → Keeps E I x P)
    (hy : ¬c → Keeps E I y P) : Keeps E I (if c then x else y) P := by
  split
  · exact hx ‹c›
  · exact hy ‹¬c›

end Stateful

end FormDesigner
