/-!
# Results of several steps

A computation of several steps that may fail succeeds exactly if each of its steps does.
-/

namespace FormDesigner

namespace Result

variable {ε α β : Type}

theorem ok_bind (a : α) (f : α → Except ε β) : (Except.ok a >>= f) = f a := rfl

theorem bind_eq_ok {x : Except ε α} {f : α → Except ε β} {b : β} :
    (x >>= f) = .ok b ↔ ∃ a, x = .ok a ∧ f a = .ok b := by
  cases x with
  | error e =>
      refine ⟨fun h => ?_, fun ⟨a, h, _⟩ => ?_⟩
      · cases h
      · cases h
  | ok a =>
      refine ⟨fun h => ⟨a, rfl, h⟩, ?_⟩
      rintro ⟨_, ⟨⟩, h⟩
      exact h

theorem map_eq_ok {x : Except ε α} {f : α → β} {b : β} :
    x.map f = .ok b ↔ ∃ a, x = .ok a ∧ f a = b := by
  cases x <;> simp [Except.map]

theorem mapM_cons {f : α → Except ε β} {x : α} {xs : List α} {ys : List β} :
    (x :: xs).mapM f = .ok ys ↔ ∃ y zs, f x = .ok y ∧ xs.mapM f = .ok zs ∧ ys = y :: zs := by
  rw [List.mapM_cons, bind_eq_ok]
  simp only [bind_eq_ok]
  refine ⟨?_, ?_⟩
  · rintro ⟨y, hy, zs, hzs, h⟩
    exact ⟨y, zs, hy, hzs, (Except.ok.inj h).symm⟩
  · rintro ⟨y, zs, hy, hzs, rfl⟩
    exact ⟨y, hy, zs, hzs, rfl⟩

/-- The results of a step for every item of a list. -/
theorem mapM_eq_ok {f : α → Except ε β} {xs : List α} {ys : List β} (h : xs.mapM f = .ok ys) :
    ys.map .ok = xs.map f := by
  induction xs generalizing ys with
  | nil =>
      rw [List.mapM_nil] at h
      rw [← Except.ok.inj h]
      rfl
  | cons x xs ih =>
      obtain ⟨y, zs, hy, hzs, rfl⟩ := mapM_cons.1 h
      rw [List.map_cons, List.map_cons, hy, ih hzs]

theorem mapM_of_forall {f : α → Except ε β} {g : α → β} {xs : List α}
    (h : ∀ x ∈ xs, f x = .ok (g x)) : xs.mapM f = .ok (xs.map g) := by
  induction xs with
  | nil => rfl
  | cons x xs ih =>
      obtain ⟨hx, hxs⟩ := List.forall_mem_cons.1 h
      exact mapM_cons.2 ⟨g x, xs.map g, hx, ih hxs, rfl⟩

theorem exists_mapM {f : α → Except ε β} {P : β → Prop} {xs : List α}
    (h : ∀ x ∈ xs, ∃ y, f x = .ok y ∧ P y) : ∃ ys, xs.mapM f = .ok ys ∧ ∀ y ∈ ys, P y := by
  induction xs with
  | nil => exact ⟨[], rfl, List.forall_mem_nil _⟩
  | cons x xs ih =>
      obtain ⟨⟨y, hy, hP⟩, hxs⟩ := List.forall_mem_cons.1 h
      obtain ⟨ys, hys, hPs⟩ := ih hxs
      exact ⟨y :: ys, mapM_cons.2 ⟨y, ys, hy, hys, rfl⟩, List.forall_mem_cons.2 ⟨hP, hPs⟩⟩

theorem forM_eq_ok {f : α → Except ε Unit} {xs : List α} :
    xs.forM f = .ok () ↔ ∀ x ∈ xs, f x = .ok () := by
  induction xs with
  | nil => exact ⟨fun _ => by simp, fun _ => rfl⟩
  | cons x xs ih =>
      change (f x >>= fun _ => xs.forM f) = .ok () ↔ _
      rw [bind_eq_ok, List.forall_mem_cons, ← ih]
      exact ⟨fun ⟨_, hx, h⟩ => ⟨hx, h⟩, fun ⟨hx, h⟩ => ⟨_, hx, h⟩⟩

/-! ### How a computation fails -/

/-- A computation fails, if at all, as `P` says. -/
def FailsOnly (P : ε → Prop) (x : Except ε α) : Prop := ∀ e, x = .error e → P e

variable {P P' : ε → Prop} {x : Except ε α} {f : α → Except ε β} {xs : List α}

theorem failsOnly_ok (a : α) : FailsOnly P (.ok a : Except ε α) := fun _ h => by cases h

theorem failsOnly_error {e : ε} (he : P e) : FailsOnly P (.error e : Except ε α) := fun _ h =>
  Except.error.inj h ▸ he

theorem FailsOnly.mono (hx : FailsOnly P x) (h : ∀ e, P e → P' e) : FailsOnly P' x :=
  fun e he => h e (hx e he)

theorem FailsOnly.bind (hx : FailsOnly P x) (hf : ∀ a, x = .ok a → FailsOnly P (f a)) :
    FailsOnly P (x >>= f) := by
  cases x with
  | error e => exact failsOnly_error (hx e rfl)
  | ok a => exact hf a rfl

theorem FailsOnly.map {f : α → β} (hx : FailsOnly P x) : FailsOnly P (x.map f) := by
  cases x with
  | error e => exact failsOnly_error (hx e rfl)
  | ok a => exact failsOnly_ok _

theorem FailsOnly.mapM (hf : ∀ x ∈ xs, FailsOnly P (f x)) : FailsOnly P (xs.mapM f) := by
  induction xs with
  | nil => exact failsOnly_ok _
  | cons x xs ih =>
      obtain ⟨hx, hxs⟩ := List.forall_mem_cons.1 hf
      rw [List.mapM_cons]
      exact hx.bind fun _ _ => (ih hxs).bind fun _ _ => failsOnly_ok _

theorem FailsOnly.foldlM {g : β → α → Except ε β} (hg : ∀ b, ∀ x ∈ xs, FailsOnly P (g b x))
    (b : β) : FailsOnly P (xs.foldlM g b) := by
  induction xs generalizing b with
  | nil => exact failsOnly_ok _
  | cons x xs ih =>
      rw [List.foldlM_cons]
      exact (hg b x List.mem_cons_self).bind fun c _ =>
        ih (fun b y hy => hg b y (List.mem_cons_of_mem _ hy)) c

theorem FailsOnly.forM {f : α → Except ε Unit} (hf : ∀ x ∈ xs, FailsOnly P (f x)) :
    FailsOnly P (xs.forM f) := by
  induction xs with
  | nil => exact failsOnly_ok _
  | cons x xs ih =>
      obtain ⟨hx, hxs⟩ := List.forall_mem_cons.1 hf
      exact hx.bind fun _ _ => ih hxs

/-! ### Computations that go alike -/

/-- Two computations give results that are related, or fail in the same way. -/
inductive Alike {α' : Type} (R : α → α' → Prop) : Except ε α → Except ε α' → Prop
  | ok {a : α} {a' : α'} (related : R a a') : Alike R (.ok a) (.ok a')
  | error (e : ε) : Alike R (.error e) (.error e)

variable {α' β' γ : Type} {R : α → α' → Prop} {S : β → β' → Prop}

theorem Alike.bind {x : Except ε α} {x' : Except ε α'} {f : α → Except ε β}
    {f' : α' → Except ε β'} (hx : Alike R x x') (hf : ∀ a a', R a a' → Alike S (f a) (f' a')) :
    Alike S (x >>= f) (x' >>= f') := by
  cases hx with
  | ok related => exact hf _ _ related
  | error e => exact .error e

/-- Two computations with the same first step. -/
theorem Alike.after {f : α → Except ε β} {f' : α → Except ε β'} (x : Except ε α)
    (hf : ∀ a, Alike S (f a) (f' a)) : Alike S (x >>= f) (x >>= f') := by
  cases x with
  | ok a => exact hf a
  | error e => exact .error e

theorem Alike.exists_ok {x : Except ε α} {x' : Except ε α'} {a : α} (h : Alike R x x')
    (hx : x = .ok a) : ∃ a', x' = .ok a' ∧ R a a' := by
  cases h with
  | ok related => exact ⟨_, rfl, Except.ok.inj hx ▸ related⟩
  | error e => cases hx

theorem Alike.foldlM {f : α → γ → Except ε α} {f' : α' → γ → Except ε α'}
    (hf : ∀ a a' c, R a a' → Alike R (f a c) (f' a' c)) (cs : List γ) {a : α} {a' : α'}
    (h : R a a') : Alike R (cs.foldlM f a) (cs.foldlM f' a') := by
  induction cs generalizing a a' with
  | nil => exact .ok h
  | cons c cs ih =>
      rw [List.foldlM_cons, List.foldlM_cons]
      exact (hf a a' c h).bind fun _ _ => ih

end Result

end FormDesigner
