import FormDesigner.Proofs.Number.Remainder

/-!
# Integers among the floating-point numbers

An integer is rounded to a floating-point number, and a floating-point number without a fraction
is cut to an integer. The two agree on the integers that equal a floating-point number.
-/

namespace FormDesigner

namespace Binary64

open Ratio

variable {x : Binary64} {n : Int}

/-- An integer that equals a floating-point number. -/
def IsExact (n : Int) : Prop := ∃ x, ofInt? n = some x ∧ x.compareInt? n = some .eq

section Signed

variable {s : Bool} {m d : Nat}

private theorem eq_natAbs_mul (h : (if s = true then -(m : Int) else m) = n * d) :
    m = n.natAbs * d := by
  have := congrArg Int.natAbs h
  rw [Int.natAbs_mul, Int.natAbs_natCast] at this
  rw [← this]
  split <;> simp

private theorem eq_sign (hd : 0 < d) (hn : n ≠ 0)
    (h : (if s = true then -(m : Int) else m) = n * d) : s = decide (n < 0) := by
  have hpos : (0 : Int) < d := by exact_mod_cast hd
  rcases Int.lt_or_gt_of_ne hn with hneg | hneg
  · have := Int.mul_neg_of_neg_of_pos hneg hpos
    cases s with
    | true => simp [hneg]
    | false => simp at h; omega
  · have := Int.mul_pos hneg hpos
    cases s with
    | true => simp at h; omega
    | false => simp; omega

private theorem signed_eq_iff (hd : 0 < d) :
    (if s = true then -(m : Int) else m) = n * d ↔
      m % d = 0 ∧ (if s = true then -((m / d : Nat) : Int) else (m / d : Nat)) = n := by
  constructor
  · intro h
    have hm := eq_natAbs_mul h
    refine ⟨by rw [hm, Nat.mul_mod_left], ?_⟩
    rw [hm, Nat.mul_div_cancel _ hd]
    by_cases hn : n = 0
    · simp [hn]
    · rw [eq_sign hd hn h]
      simp only [decide_eq_true_eq]
      split <;> omega
  · rintro ⟨hdvd, rfl⟩
    have hm : m = m / d * d := (Nat.div_mul_cancel (Nat.dvd_of_mod_eq_zero hdvd)).symm
    have hcast : (m : Int) = (m / d : Nat) * (d : Int) := by exact_mod_cast hm
    split
    · rw [Int.neg_mul, ← hcast]
    · exact hcast

end Signed

/-- A floating-point number equals an integer if it has no fraction and is cut to this integer. -/
theorem compareInt?_eq_iff :
    x.compareInt? n = some .eq ↔ x.isInteger = true ∧ x.truncate? = some n := by
  cases x with
  | nan a => simp [compareInt?, isInteger]
  | infinite s => cases s <;> simp [compareInt?, isInteger]
  | finite s m e h =>
      simp only [compareInt?, Option.some.injEq, compare_eq_iff_eq, isInteger, truncate?,
        scaledInt, Bool.or_eq_true, decide_eq_true_eq, beq_iff_eq]
      by_cases he : 0 ≤ e
      · rw [min_eq_right he]
        simp [he]
      · have hpow : 0 < Nat.pow 2 (-e).toNat := Nat.pow_pos (by decide)
        rw [min_eq_left (by omega)]
        simpa [he] using signed_eq_iff hpow

/-- The magnitude and the sign of an integer that equals a finite number. -/
private theorem eq_of_compareInt? {s : Bool} {m : Nat} {e : Int} {h : CanonicalPair m e}
    (hcompare : (Binary64.finite s m e h).compareInt? n = some .eq) (hn : n ≠ 0) :
    s = decide (n < 0) ∧ (n.natAbs : ℚ) = m * (2 : ℚ) ^ e := by
  simp only [compareInt?, scaledInt, Option.some.injEq, compare_eq_iff_eq] at hcompare
  generalize hd : Nat.pow 2 (-min e 0).toNat = d at hcompare
  generalize hk : m * Nat.pow 2 (e - min e 0).toNat = k at hcompare
  have hpos : 0 < d := hd ▸ Nat.pow_pos (by decide)
  have habs := eq_natAbs_mul hcompare
  refine ⟨eq_sign hpos hn hcompare, ?_⟩
  have hvalue : (m : ℚ) * 2 ^ (e - min e 0).toNat = n.natAbs * 2 ^ (-min e 0).toNat := by
    have : m * 2 ^ (e - min e 0).toNat = n.natAbs * 2 ^ (-min e 0).toNat := by
      rw [← hd] at habs
      exact hk.trans habs
    exact_mod_cast this
  have hleft : (2 : ℚ) ^ (e - min e 0).toNat = 2 ^ (e - min e 0) := by
    rw [← zpow_natCast, Int.toNat_of_nonneg (by omega)]
  have hright : (2 : ℚ) ^ (-min e 0).toNat = 2 ^ (-min e 0) := by
    rw [← zpow_natCast, Int.toNat_of_nonneg (by omega)]
  rw [hleft, hright, zpow_sub₀ (by norm_num), zpow_neg, div_eq_mul_inv, ← mul_assoc] at hvalue
  exact (mul_right_cancel₀ (inv_ne_zero (zpow_ne_zero _ (by norm_num))) hvalue).symm

/-- An integer that equals a floating-point number is rounded to a number that equals it. -/
theorem isExact_of_compareInt? (h : x.compareInt? n = some .eq) : IsExact n := by
  by_cases hzero : n = 0
  · subst hzero
    exact ⟨zero false, rfl, by decide +kernel⟩
  · cases x with
    | nan | infinite => simp [compareInt?_eq_iff, isInteger] at h
    | finite s m e canonical =>
        obtain ⟨rfl, hvalue⟩ := eq_of_compareInt? h hzero
        have hm : m ≠ 0 := by
          rintro rfl
          simp [hzero] at hvalue
        have hround : ofDyadic (n < 0) n.natAbs 0 = .finite (decide (n < 0)) m e canonical := by
          refine ofRatio_of_canonical _ (Nat.one_pos) canonical hm ?_
          simpa [Ratio.ofDyadic, value] using hvalue
        exact ⟨_, by rw [ofInt?, hround], h⟩

theorem IsExact.natAbs_lt (h : IsExact n) {k : Nat} (hk : 1024 ≤ k) : n.natAbs < 2 ^ k := by
  obtain ⟨x, -, hx⟩ := h
  cases x with
  | nan | infinite => simp [compareInt?_eq_iff, isInteger] at hx
  | finite s m e canonical =>
      by_cases hn : n = 0
      · rw [hn, Int.natAbs_zero]
        exact Nat.pow_pos (by decide)
      · have hm : (m : ℚ) < 2 ^ 53 := by exact_mod_cast canonical.1
        have he : (2 : ℚ) ^ e ≤ 2 ^ (971 : Int) :=
          zpow_le_zpow_right₀ (by norm_num) canonical.2.2.1
        have hbound : (n.natAbs : ℚ) < 2 ^ k := by
          calc (n.natAbs : ℚ) = m * (2 : ℚ) ^ e := (eq_of_compareInt? hx hn).2
            _ ≤ m * 2 ^ (971 : Int) := mul_le_mul_of_nonneg_left he (Nat.cast_nonneg m)
            _ < 2 ^ 53 * 2 ^ (971 : Int) := mul_lt_mul_of_pos_right hm (by positivity)
            _ = 2 ^ ((53 : Nat) + 971 : Int) := by rw [zpow_add₀ (by norm_num), zpow_natCast]
            _ ≤ 2 ^ (k : Int) := zpow_le_zpow_right₀ (by norm_num) (by push_cast; omega)
            _ = 2 ^ k := zpow_natCast 2 k
        exact_mod_cast hbound

/-- An integer that equals a floating-point number is not too long to be written. -/
theorem IsExact.isSome_integerText? (h : IsExact n) : (integerText? n).isSome = true := by
  have hdigits : 1024 ≤ maxIntegerDigits := by decide
  unfold integerText?
  generalize maxIntegerDigits = limit at hdigits
  have hlt : n.natAbs < Nat.pow 10 limit :=
    (h.natAbs_lt hdigits).trans_le (Nat.pow_le_pow_left (by decide) limit)
  rw [if_pos hlt]
  rfl

/-! ### Numbers without a fraction -/

/-- A number as an integer if it has no fraction. -/
def whole (x : Binary64) : Number :=
  match x.isInteger, x.truncate? with
  | true, some n => .int n
  | _, _ => .float x

theorem whole_of_compareInt? (h : x.compareInt? n = some .eq) : x.whole = .int n := by
  obtain ⟨hinteger, htruncate⟩ := compareInt?_eq_iff.1 h
  rw [whole, hinteger, htruncate]

theorem whole_cases (x : Binary64) :
    (∃ n, x.whole = .int n ∧ x.compareInt? n = some .eq) ∨
      x.whole = .float x ∧ ∀ n, x.compareInt? n ≠ some .eq := by
  unfold whole
  split
  · next n hinteger htruncate => exact .inl ⟨n, rfl, compareInt?_eq_iff.2 ⟨hinteger, htruncate⟩⟩
  · next hnot =>
      exact .inr ⟨rfl, fun n h => hnot n (compareInt?_eq_iff.1 h).1 (compareInt?_eq_iff.1 h).2⟩

end Binary64

end FormDesigner
