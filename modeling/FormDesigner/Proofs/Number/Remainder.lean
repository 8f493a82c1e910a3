import FormDesigner.Number.Mixed
import FormDesigner.Proofs.Number.Decimal

/-!
# Finite operands have a remainder

The remainder of two finite numbers is a number unless the divisor is zero. An integer that is used
as a floating-point number is rounded first; rounding makes no zero of an integer other than zero,
so the divisor of a remainder may be checked before it is rounded.
-/

namespace FormDesigner

/-- What is not less than one is not rounded to zero. -/
theorem Ratio.nearestEven_pos {r : Ratio} (hr : 0 < r.den) (h : 1 ≤ r.value) :
    0 < r.nearestEven := by
  have hden : (0 : ℚ) < r.den := by exact_mod_cast hr
  have hle : r.den ≤ r.num := by
    have : (r.den : ℚ) ≤ r.num := (one_le_div hden).1 h
    exact_mod_cast this
  have hquotient : 0 < r.num / r.den := Nat.div_pos hle hr
  unfold nearestEven
  dsimp only
  split
  · exact Nat.succ_pos _
  · exact hquotient

namespace Binary64

open Ratio

variable {negative : Bool} {x y : Binary64} {n : Int}

theorem isZero_ofPair {m : Nat} {e : Int} (hm : m ≠ 0) : (ofPair negative m e).isZero = false := by
  unfold ofPair
  split
  · cases m with
    | zero => exact absurd rfl hm
    | succ m => rfl
  · rfl

/-- The mantissa is rounded from a number that is not less than one. -/
theorem isZero_ofRatio {r : Ratio} (hr : 0 < r.den) (h : 1 ≤ r.value) :
    (ofRatio negative r).isZero = false := by
  have hnum : r.num ≠ 0 := fun hz => by
    rw [(value_eq_zero_iff hr).2 hz] at h
    exact absurd h (by norm_num)
  have horder : 0 ≤ r.binaryOrder := le_binaryOrder hr hnum (by simpa using h)
  have hmantissa : 0 < (r.scaleDown (max (r.binaryOrder - 52) (-1074))).nearestEven := by
    refine nearestEven_pos (den_scaleDown_pos hr _) ?_
    rw [value_scaleDown, one_le_div (by positivity)]
    refine le_trans ?_ (binaryOrder_spec hr hnum).1
    exact zpow_le_zpow_right₀ (by norm_num) (by omega)
  unfold ofRatio
  rw [if_neg hnum]
  dsimp only
  split
  · exact isZero_ofPair (by decide)
  · exact isZero_ofPair hmantissa.ne'

theorem eq_ofDyadic_of_ofInt? (h : ofInt? n = some x) :
    x = ofDyadic (n < 0) n.natAbs 0 ∧ x.isFinite = true := by
  unfold ofInt? at h
  split at h
  · rename_i heq
    obtain rfl := Option.some.inj h
    exact ⟨heq.symm, rfl⟩
  · cases h

theorem isZero_of_ofInt? (hn : n ≠ 0) (h : ofInt? n = some x) : x.isZero = false := by
  obtain ⟨rfl, -⟩ := eq_ofDyadic_of_ofInt? h
  have hvalue : (Ratio.ofDyadic n.natAbs 0).value = n.natAbs := by simp [Ratio.ofDyadic, value]
  refine isZero_ofRatio Nat.one_pos ?_
  rw [hvalue]
  exact_mod_cast Int.natAbs_pos.2 hn

theorem isNan_remainder (hx : x.isFinite = true) (hy : y.isFinite = true)
    (hzero : y.isZero = false) : (x % y).isNan = false := by
  cases x with
  | finite s m e hm =>
      cases y with
      | finite t n f hn =>
          have hn0 : n ≠ 0 := by
            rintro rfl
            cases hzero
          change (remainder (.finite s m e hm) (.finite t n f hn)).isNan = false
          rw [remainder, if_neg hn0]
          dsimp only
          cases hr : ofDyadic s _ (min e f) with
          | nan l => exact absurd hr ofRatio_ne_nan
          | _ => rfl
      | _ => cases hy
  | _ => cases hx

end Binary64

namespace Number

variable {a b r : Number} {x : Binary64}

theorem isFinite_of_toBinary? (ha : a.isFinite = true) (h : a.toBinary? = some x) :
    x.isFinite = true := by
  cases a with
  | int n => exact (Binary64.eq_ofDyadic_of_ofInt? h).2
  | float y => exact Option.some.inj h ▸ ha

theorem isZero_of_toBinary? (ha : a.isZero = false) (h : a.toBinary? = some x) :
    x.isZero = false := by
  cases a with
  | int n => exact Binary64.isZero_of_ofInt? (by simpa [isZero] using ha) h
  | float y => exact Option.some.inj h ▸ ha

/-- The remainder of finite numbers, whichever way they are written. -/
theorem isNan_of_rem? (ha : a.isFinite = true) (hb : b.isFinite = true) (hzero : b.isZero = false)
    (h : a.rem? b = some r) : r.isNan = false := by
  unfold rem? lift? at h
  split at h
  · obtain rfl := Option.some.inj h
    rfl
  · obtain ⟨x, hx, h⟩ := Option.bind_eq_some_iff.1 h
    obtain ⟨y, hy, h⟩ := Option.bind_eq_some_iff.1 h
    obtain rfl := Option.some.inj h
    exact Binary64.isNan_remainder (isFinite_of_toBinary? ha hx) (isFinite_of_toBinary? hb hy)
      (isZero_of_toBinary? hzero hy)

end Number

end FormDesigner
