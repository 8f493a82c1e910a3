import Mathlib.Logic.Function.Iterate
import FormDesigner.Proofs.Yaml.Layout

/-!
# Passing over characters

Scanning goes over a text character by character, and all of its primitives leave the scan some
characters further on. `Scan.ahead` is that scan, `x.run s = .ok (a, t)` says what a primitive finds
and where it stops.
-/

namespace FormDesigner

namespace Yaml

section Run

variable {σ α β : Type}

theorem run_bind {x : StateT σ (Except Failure) α} {f : α → StateT σ (Except Failure) β} {s t : σ}
    {a : α} (h : x.run s = .ok (a, t)) : (x >>= f).run s = (f a).run t := by
  rw [StateT.run_bind, h]
  rfl

theorem run_get_bind (f : σ → StateT σ (Except Failure) β) (s : σ) :
    (get >>= f).run s = (f s).run s := rfl

theorem run_modify_bind (g : σ → σ) (f : Unit → StateT σ (Except Failure) β) (s : σ) :
    (modify g >>= f).run s = (f ()).run (g s) := rfl

end Run

/-! ### A scan further on -/

namespace Scan

/-- The scan after some characters more. -/
def ahead (s : Scan) (n : Nat) : Scan := Scan.step^[n] s

/-- The scan with a key allowed or not. -/
def allowing (s : Scan) (b : Bool) : Scan := { s with keyAllowed := b }

variable (s : Scan) (n : Nat)

@[simp] theorem ahead_zero : s.ahead 0 = s := rfl

theorem ahead_succ : s.ahead (n + 1) = s.step.ahead n := Function.iterate_succ_apply _ _ _

theorem ahead_add (m : Nat) : s.ahead (m + n) = (s.ahead m).ahead n := by
  rw [ahead, Nat.add_comm, Function.iterate_add_apply]
  rfl

theorem step_rest : s.step.rest = s.rest.tail := by
  unfold step
  split
  · next h => rw [h]; rfl
  · next h =>
      rw [h]
      split <;> rfl

/-- Passing a character changes nothing but the place in the text. -/
theorem step_eq : s.step = { s with rest := s.step.rest, index := s.step.index,
                                    line := s.step.line, column := s.step.column } := by
  unfold step
  split
  · rfl
  · split <;> rfl

@[simp] theorem ahead_rest : (s.ahead n).rest = s.rest.drop n := by
  induction n generalizing s with
  | zero => rfl
  | succ n ih => rw [ahead_succ, ih, step_rest, List.drop_tail]

theorem ahead_of_step {β : Type} {f : Scan → β} (h : ∀ s, f s.step = f s) :
    f (s.ahead n) = f s := by
  induction n generalizing s with
  | zero => rfl
  | succ n ih => rw [ahead_succ, ih, h]

@[simp] theorem ahead_flow : (s.ahead n).flow = s.flow := ahead_of_step s n fun s => by rw [step_eq]

@[simp] theorem ahead_indent : (s.ahead n).indent = s.indent :=
  ahead_of_step s n fun s => by rw [step_eq]

@[simp] theorem ahead_outer : (s.ahead n).outer = s.outer :=
  ahead_of_step s n fun s => by rw [step_eq]

@[simp] theorem ahead_keyAllowed : (s.ahead n).keyAllowed = s.keyAllowed :=
  ahead_of_step s n fun s => by rw [step_eq]

@[simp] theorem ahead_places : (s.ahead n).places = s.places :=
  ahead_of_step s n fun s => by rw [step_eq]

@[simp] theorem ahead_tokens : (s.ahead n).tokens = s.tokens :=
  ahead_of_step s n fun s => by rw [step_eq]

theorem step_allowing (b : Bool) : (s.allowing b).step = s.step.allowing b := by
  unfold step
  cases h : s.rest with
  | nil => simp [allowing, h]
  | cons c rest =>
      simp only [allowing, h]
      split <;> rfl

/-- Whether a key is allowed does not matter to what is passed. -/
@[simp] theorem ahead_allowing (b : Bool) : (s.allowing b).ahead n = (s.ahead n).allowing b := by
  induction n generalizing s with
  | zero => rfl
  | succ n ih => rw [ahead_succ, ahead_succ, step_allowing, ih]

@[simp] theorem allowing_rest (b : Bool) : (s.allowing b).rest = s.rest := rfl
@[simp] theorem allowing_column (b : Bool) : (s.allowing b).column = s.column := rfl
@[simp] theorem allowing_line (b : Bool) : (s.allowing b).line = s.line := rfl
@[simp] theorem allowing_flow (b : Bool) : (s.allowing b).flow = s.flow := rfl
@[simp] theorem allowing_allowing (a b : Bool) : (s.allowing a).allowing b = s.allowing b := rfl

/-- Characters that only lead further in their line. -/
def IsInline (cs : List Char) : Prop := ∀ c ∈ cs, isBreak c = false ∧ c ≠ byteOrderMark

variable {s}

theorem ahead_inline {cs rest : List Char} (h : s.rest = cs ++ rest) (hcs : IsInline cs) :
    s.ahead cs.length = { s with rest := rest, index := s.index + cs.length,
                                 column := s.column + cs.length } := by
  induction cs generalizing s with
  | nil =>
      cases s
      simp_all
  | cons c cs ih =>
      obtain ⟨⟨hbreak, hmark⟩, hcs⟩ := List.forall_mem_cons.1 hcs
      have hstep : s.step = { s with rest := cs ++ rest, index := s.index + 1,
                                     column := s.column + 1 } := by
        unfold step
        rw [h]
        simp [hbreak, hmark]
      rw [List.length_cons, ahead_succ, hstep, ih rfl hcs]
      simp only [Nat.add_assoc, Nat.add_comm 1]

theorem rest_ahead {a b : List Char} (h : s.rest = a ++ b) : (s.ahead a.length).rest = b := by
  rw [ahead_rest, h, List.drop_left]

theorem rest_ahead_one {c : Char} {b : List Char} (h : s.rest = c :: b) : (s.ahead 1).rest = b := by
  rw [ahead_rest, h]
  rfl

theorem rest_ahead_indentation {n : Nat} {b : List Char} (h : s.rest = indentation n ++ b) :
    (s.ahead n).rest = b := by
  simpa using rest_ahead h

theorem step_feed {rest : List Char} (h : s.rest = '\n' :: rest) :
    s.step = { s with rest := rest, index := s.index + 1, line := s.line + 1, column := 0 } := by
  unfold step
  rw [h]
  rfl

theorem isInline_indentation (n : Nat) : IsInline (indentation n) := fun c hc => by
  obtain rfl := List.eq_of_mem_replicate hc
  exact ⟨rfl, by decide⟩

/-- The end of a line and the indentation of the next one. -/
theorem ahead_feed {n : Nat} {rest : List Char} (h : s.rest = '\n' :: (indentation n ++ rest)) :
    s.ahead (n + 1) = { s with rest := rest, index := s.index + 1 + n, line := s.line + 1,
                               column := n } := by
  obtain ⟨t, ht⟩ : ∃ t, t = { s with rest := indentation n ++ rest, index := s.index + 1,
                                     line := s.line + 1, column := 0 } := ⟨_, rfl⟩
  have hinline := ahead_inline (s := t) (by rw [ht]) (isInline_indentation n)
  rw [length_indentation] at hinline
  rw [ahead_succ, step_feed h, ← ht, hinline, ht]
  simp

theorem line_le_step (s : Scan) : s.line ≤ s.step.line := by
  unfold step
  split
  · exact Nat.le_refl _
  · split
    · exact Nat.le_succ _
    · exact Nat.le_refl _

theorem line_le_ahead (s : Scan) (n : Nat) : s.line ≤ (s.ahead n).line := by
  induction n generalizing s with
  | zero => exact Nat.le_refl _
  | succ n ih => exact Nat.le_trans (line_le_step s) (ahead_succ s n ▸ ih s.step)

end Scan

/-! ### Primitives -/

variable {s : Scan}

theorem peek_run (n : Nat) (s : Scan) : (peek n).run s = .ok (s.rest[n]?, s) := rfl

theorem forward_run (n : Nat) (s : Scan) : (forward n).run s = .ok ((), s.ahead n) := by
  induction n generalizing s with
  | zero => rfl
  | succ n ih => exact ih s.step

theorem run_pure_ahead {α : Type} {a b : α} {m n : Nat} (hab : a = b) (hmn : m = n) (s : Scan) :
    (pure a : Scanner α).run (s.ahead m) = .ok (b, s.ahead n) := by
  rw [hab, hmn]
  rfl

theorem run_ahead_congr {α : Type} {x : Scanner α} {a b : α} {m n : Nat} {s : Scan}
    (h : x.run s = .ok (a, s.ahead m)) (hab : a = b) (hmn : m = n) :
    x.run s = .ok (b, s.ahead n) := by
  rw [h, hab, hmn]

theorem allowKey_run (b : Bool) (s : Scan) : (allowKey b).run s = .ok ((), s.allowing b) := rfl

theorem takeWhile_run {p : Char → Bool} {cs rest : List Char} (h : s.rest = cs ++ rest)
    (hcs : ∀ c ∈ cs, p c = true) (hrest : ∀ c ∈ rest.head?, p c = false) :
    (takeWhile p).run s = .ok (cs, s.ahead cs.length) := by
  have htaken : s.rest.takeWhile p = cs := by
    rw [h, List.takeWhile_append_of_pos hcs]
    cases rest with
    | nil => simp
    | cons c rest => simp [hrest c rfl]
  rw [takeWhile, run_get_bind]
  simp only [htaken]
  rw [run_bind (forward_run _ _)]
  rfl

theorem skip_blanks_run {n : Nat} {rest : List Char} (h : s.rest = indentation n ++ rest)
    (hrest : rest.head? ≠ some ' ') : (skip ' ').run s = .ok ((), s.ahead n) := by
  have := takeWhile_run (p := (· == ' ')) h (fun c hc => by simpa using List.eq_of_mem_replicate hc)
    (fun c hc => by
      rw [beq_eq_false_iff_ne]
      rintro rfl
      exact hrest hc)
  rw [length_indentation] at this
  rw [skip, run_bind this]
  rfl

theorem skipComment_run (h : s.rest.head? ≠ some '#') : skipComment.run s = .ok ((), s) := by
  rw [skipComment, run_bind (peek_run 0 s)]
  have : (s.rest[0]? == some '#') = false := by
    rw [← List.head?_eq_getElem?, beq_eq_false_iff_ne]
    exact h
  simp only [this, Bool.false_eq_true, if_false]
  rfl

/-- Where a line does not end. -/
theorem lineBreak_run_none (h : ∀ c ∈ s.rest.head?, isBreak c = false) :
    lineBreak.run s = .ok ([], s) := by
  rw [lineBreak, run_get_bind]
  cases hs : s.rest with
  | nil => rfl
  | cons c rest =>
      have hc := h c (by rw [hs]; rfl)
      have hreturn : c ≠ '\r' := by
        rintro rfl
        exact absurd hc (by decide)
      have hseparator : isSeparator c = false := by
        simp only [isBreak, Bool.or_eq_false_iff] at hc
        exact hc.2
      split
      · next heq => exact absurd (List.cons.inj heq).1 hreturn
      · next d _ _ heq =>
          obtain rfl := (List.cons.inj heq).1
          simp only [hseparator, hc, Bool.false_eq_true, if_false]
          rfl
      · next heq => cases heq

/-- The line breaks that are read as themselves. -/
def IsKeptBreak (c : Char) : Prop := c = '\n' ∨ isSeparator c = true

theorem lineBreak_run {c : Char} {rest : List Char} (h : s.rest = c :: rest) (hc : IsKeptBreak c) :
    lineBreak.run s = .ok ([c], s.ahead 1) := by
  have hreturn : c ≠ '\r' := by
    rintro rfl
    exact absurd hc (by simp [IsKeptBreak, isSeparator])
  rw [lineBreak, run_get_bind, h]
  split
  · next heq => exact absurd (List.cons.inj heq).1 hreturn
  · next d _ _ heq =>
      obtain rfl := (List.cons.inj heq).1
      split
      · rw [run_bind (forward_run 1 s)]
        rfl
      · next hseparator =>
          obtain rfl : c = '\n' := hc.resolve_right hseparator
          rw [if_pos (by decide : isBreak '\n' = true), run_bind (forward_run 1 s)]
          rfl
  · next heq => cases heq

/-- A text does not begin with the three characters of a line that separates documents. -/
def IsUnseparated (cs : List Char) : Prop :=
  ∀ c, c = '-' ∨ c = '.' → ∀ a b d rest, cs = a :: b :: d :: rest → ¬(a = c ∧ b = c ∧ d = c)

theorem atSeparator_run (c : Char) (s : Scan) : ∃ b, (atSeparator c).run s = .ok (b, s) := by
  rw [atSeparator, run_get_bind]
  split
  · exact ⟨_, rfl⟩
  · exact ⟨_, rfl⟩

theorem atSeparator_run_false (h : IsUnseparated s.rest) {c : Char} (hc : c = '-' ∨ c = '.') :
    (atSeparator c).run s = .ok (false, s) := by
  rw [atSeparator, run_get_bind]
  split
  · next a b d rest heq =>
      have := h c hc a b d rest heq
      have hfalse : (a == c && b == c && d == c && endsToken rest.head?) = false := by
        rw [Bool.and_eq_false_iff]
        left
        simp only [Bool.and_eq_false_iff, beq_eq_false_iff_ne]
        tauto
      rw [hfalse]
      rfl
  · rfl

theorem atAnySeparator_run (h : IsUnseparated s.rest) :
    atAnySeparator.run s = .ok (false, s) := by
  rw [atAnySeparator, run_bind (atSeparator_run_false h (.inl rfl)),
    run_bind (atSeparator_run_false h (.inr rfl))]
  rfl

end Yaml

end FormDesigner
