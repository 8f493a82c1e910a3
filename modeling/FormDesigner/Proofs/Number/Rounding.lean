import FormDesigner.Number.Binary64
import Mathlib.Algebra.Order.Field.Power
import Mathlib.Algebra.Order.Ring.Rat
import Mathlib.Tactic.FieldSimp
import Mathlib.Tactic.Linarith
import Mathlib.Tactic.NormNum
import Mathlib.Tactic.Positivity
import Mathlib.Tactic.Ring

/-!
# Rounding depends on values only

A ratio is a way of writing a rational number. Its binary order is the order of that number, the
nearest integer is that of the number, and so two ways of writing one number round alike. A number
that has a canonical pair is rounded to that pair: rounding is the identity on what it can produce.
Numbers far outside the format's range round to zero and to infinity, which justifies the shortcuts
by which decimals are rounded.
-/

namespace FormDesigner

namespace Ratio

/-- The rational number that a ratio writes. -/
def value (r : Ratio) : ℚ := r.num / r.den

theorem value_ofDecimal (m : Nat) (e : Int) : (ofDecimal m e).value = m * (10 : ℚ) ^ e := by
  unfold ofDecimal
  split
  · rename_i he
    obtain ⟨n, rfl⟩ := Int.eq_ofNat_of_zero_le he
    simp [value]
  · rename_i he
    obtain ⟨n, rfl⟩ := Int.exists_eq_neg_ofNat (not_le.1 he).le
    simp [value, div_eq_mul_inv]

theorem value_scaleDown (r : Ratio) (e : Int) : (r.scaleDown e).value = r.value / (2 : ℚ) ^ e := by
  unfold scaleDown
  split
  · rename_i he
    obtain ⟨n, rfl⟩ := Int.eq_ofNat_of_zero_le he
    simp [value, div_div]
  · rename_i he
    obtain ⟨n, rfl⟩ := Int.exists_eq_neg_ofNat (not_le.1 he).le
    simp [value, div_mul_eq_mul_div]

theorem den_ofDecimal_pos (m : Nat) (e : Int) : 0 < (ofDecimal m e).den := by
  unfold ofDecimal
  split
  · exact Nat.one_pos
  · exact Nat.pow_pos (by decide)

theorem den_scaleDown_pos {r : Ratio} (hr : 0 < r.den) (e : Int) : 0 < (r.scaleDown e).den := by
  unfold scaleDown
  split
  · exact Nat.mul_pos hr (Nat.two_pow_pos _)
  · exact hr

theorem value_eq_zero_iff {r : Ratio} (hr : 0 < r.den) : r.value = 0 ↔ r.num = 0 := by
  have hden : (r.den : ℚ) ≠ 0 := by exact_mod_cast hr.ne'
  simp [value, hden]

/-! ### The nearest integer -/

private theorem nearestEven_mul (a b : Nat) {k : Nat} (hk : 0 < k) :
    nearestEven ⟨a * k, b * k⟩ = nearestEven ⟨a, b⟩ := by
  have hlt : b * k < 2 * (a % b * k) ↔ b < 2 * (a % b) := by
    rw [← Nat.mul_assoc]
    exact Nat.mul_lt_mul_right hk
  have heq : b * k = 2 * (a % b * k) ↔ b = 2 * (a % b) := by
    rw [← Nat.mul_assoc]
    exact Nat.mul_left_inj hk.ne'
  simp only [nearestEven, Nat.mul_div_mul_right a b hk, Nat.mul_mod_mul_right, hlt, heq]

/-- Two ways of writing a number have the same nearest integer. -/
theorem nearestEven_congr {r q : Ratio} (hr : 0 < r.den) (hq : 0 < q.den)
    (h : r.value = q.value) : r.nearestEven = q.nearestEven := by
  have hr' : (r.den : ℚ) ≠ 0 := by exact_mod_cast hr.ne'
  have hq' : (q.den : ℚ) ≠ 0 := by exact_mod_cast hq.ne'
  have hcross : r.num * q.den = q.num * r.den := by
    have := (div_eq_div_iff hr' hq').1 h
    exact_mod_cast this
  calc r.nearestEven = nearestEven ⟨r.num * q.den, r.den * q.den⟩ := (nearestEven_mul _ _ hq).symm
    _ = nearestEven ⟨q.num * r.den, q.den * r.den⟩ := by rw [hcross, Nat.mul_comm r.den]
    _ = q.nearestEven := nearestEven_mul _ _ hr

/-- An integer is its own nearest integer. -/
theorem nearestEven_of_value_eq {r : Ratio} (hr : 0 < r.den) {n : Nat} (h : r.value = n) :
    r.nearestEven = n := by
  have hn : r.value = (Ratio.mk n 1).value := by rw [h]; simp [value]
  rw [nearestEven_congr hr Nat.one_pos hn]
  simp [nearestEven, Nat.mod_one]

/-- A number below one half has zero as its nearest integer. -/
theorem nearestEven_of_value_lt_half {r : Ratio} (hr : 0 < r.den) (h : r.value < 1 / 2) :
    r.nearestEven = 0 := by
  have hden : (0 : ℚ) < r.den := by exact_mod_cast hr
  have hlt : 2 * r.num < r.den := by
    have := (div_lt_div_iff₀ hden two_pos).1 h
    have : r.num * 2 < 1 * r.den := by exact_mod_cast this
    omega
  have hsmall : r.num < r.den := by omega
  have hq : r.num / r.den = 0 := Nat.div_eq_of_lt hsmall
  have hm : r.num % r.den = r.num := Nat.mod_eq_of_lt hsmall
  simp only [nearestEven, hq, hm]
  rw [if_neg]
  omega

/-! ### The binary order -/

private theorem pow_log2_le {m : Nat} (hm : m ≠ 0) : (2 : ℚ) ^ m.log2 ≤ m := by
  exact_mod_cast Nat.log2_self_le hm

private theorem lt_pow_log2 (m : Nat) : (m : ℚ) < (2 : ℚ) ^ (m.log2 + 1) := by
  exact_mod_cast Nat.lt_log2_self

/-- The binary sizes of its parts tell the value of a ratio up to a factor of two each way. -/
private theorem value_bounds {r : Ratio} (hr : 0 < r.den) (hnum : r.num ≠ 0) :
    (2 : ℚ) ^ ((r.num.log2 : Int) - r.den.log2 - 1) ≤ r.value ∧
      r.value < (2 : ℚ) ^ ((r.num.log2 : Int) - r.den.log2 + 1) := by
  have hden : (0 : ℚ) < r.den := by exact_mod_cast hr
  set guess : Int := (r.num.log2 : Int) - r.den.log2 with hguess
  constructor
  · rw [value, le_div_iff₀ hden]
    calc (2 : ℚ) ^ (guess - 1) * r.den
        ≤ (2 : ℚ) ^ (guess - 1) * (2 : ℚ) ^ (r.den.log2 + 1) :=
          mul_le_mul_of_nonneg_left (lt_pow_log2 _).le (by positivity)
      _ = (2 : ℚ) ^ r.num.log2 := by
          rw [← zpow_natCast, ← zpow_natCast, ← zpow_add₀ two_ne_zero]
          congr 1
          omega
      _ ≤ r.num := pow_log2_le hnum
  · rw [value, div_lt_iff₀ hden]
    calc (r.num : ℚ) < (2 : ℚ) ^ (r.num.log2 + 1) := lt_pow_log2 _
      _ = (2 : ℚ) ^ (guess + 1) * (2 : ℚ) ^ r.den.log2 := by
          rw [← zpow_natCast, ← zpow_natCast, ← zpow_add₀ two_ne_zero]
          congr 1
          omega
      _ ≤ (2 : ℚ) ^ (guess + 1) * r.den :=
          mul_le_mul_of_nonneg_left (pow_log2_le hr.ne') (by positivity)

/-- A number scaled by a power of two is at least one if it is at least that power. -/
private theorem den_le_num_scaleDown_iff {r : Ratio} (hr : 0 < r.den) (e : Int) :
    (r.scaleDown e).den ≤ (r.scaleDown e).num ↔ (2 : ℚ) ^ e ≤ r.value := by
  have hpos : (0 : ℚ) < (r.scaleDown e).den := by exact_mod_cast den_scaleDown_pos hr e
  have hpow : (0 : ℚ) < (2 : ℚ) ^ e := by positivity
  rw [← one_le_div hpow, ← value_scaleDown, value, one_le_div hpos]
  exact_mod_cast Iff.rfl

/-- The binary order is the number's exponent of two. -/
theorem binaryOrder_spec {r : Ratio} (hr : 0 < r.den) (hnum : r.num ≠ 0) :
    (2 : ℚ) ^ r.binaryOrder ≤ r.value ∧ r.value < (2 : ℚ) ^ (r.binaryOrder + 1) := by
  obtain ⟨hlow, hhigh⟩ := value_bounds hr hnum
  set guess : Int := (r.num.log2 : Int) - r.den.log2 with hguess
  have hbinary : r.binaryOrder = if (r.scaleDown guess).den ≤ (r.scaleDown guess).num
      then guess else guess - 1 := rfl
  rw [hbinary]
  split
  · rename_i h
    exact ⟨(den_le_num_scaleDown_iff hr guess).1 h, hhigh⟩
  · rename_i h
    refine ⟨hlow, ?_⟩
    rw [sub_add_cancel]
    exact not_le.1 fun hle => h ((den_le_num_scaleDown_iff hr guess).2 hle)

/-- There is only one exponent of two for a number. -/
theorem binaryOrder_eq {r : Ratio} (hr : 0 < r.den) (hnum : r.num ≠ 0) {k : Int}
    (hlow : (2 : ℚ) ^ k ≤ r.value) (hhigh : r.value < (2 : ℚ) ^ (k + 1)) : r.binaryOrder = k := by
  obtain ⟨hl, hh⟩ := binaryOrder_spec hr hnum
  have h1 : k < r.binaryOrder + 1 :=
    (zpow_lt_zpow_iff_right₀ (by norm_num : (1 : ℚ) < 2)).1 (lt_of_le_of_lt hlow hh)
  have h2 : r.binaryOrder < k + 1 :=
    (zpow_lt_zpow_iff_right₀ (by norm_num : (1 : ℚ) < 2)).1 (lt_of_le_of_lt hl hhigh)
  omega

theorem binaryOrder_lt {r : Ratio} (hr : 0 < r.den) (hnum : r.num ≠ 0) {k : Int}
    (h : r.value < (2 : ℚ) ^ k) : r.binaryOrder < k :=
  (zpow_lt_zpow_iff_right₀ (by norm_num : (1 : ℚ) < 2)).1
    (lt_of_le_of_lt (binaryOrder_spec hr hnum).1 h)

theorem le_binaryOrder {r : Ratio} (hr : 0 < r.den) (hnum : r.num ≠ 0) {k : Int}
    (h : (2 : ℚ) ^ k ≤ r.value) : k ≤ r.binaryOrder := by
  have := (zpow_lt_zpow_iff_right₀ (by norm_num : (1 : ℚ) < 2)).1
    (lt_of_le_of_lt h (binaryOrder_spec hr hnum).2)
  omega

theorem binaryOrder_congr {r q : Ratio} (hr : 0 < r.den) (hq : 0 < q.den) (hnum : r.num ≠ 0)
    (h : r.value = q.value) : r.binaryOrder = q.binaryOrder := by
  have hqnum : q.num ≠ 0 := by
    intro hz
    exact hnum ((value_eq_zero_iff hr).1 (h.trans ((value_eq_zero_iff hq).2 hz)))
  obtain ⟨hlow, hhigh⟩ := binaryOrder_spec hq hqnum
  exact binaryOrder_eq hr hnum (by rwa [h]) (by rwa [h])

end Ratio

namespace Binary64

open Ratio

/-- Two ways of writing a number round alike. -/
theorem ofRatio_congr (negative : Bool) {r q : Ratio} (hr : 0 < r.den) (hq : 0 < q.den)
    (h : r.value = q.value) : ofRatio negative r = ofRatio negative q := by
  have hzero : r.num = 0 ↔ q.num = 0 := by
    rw [← value_eq_zero_iff hr, ← value_eq_zero_iff hq, h]
  unfold ofRatio
  by_cases hnum : r.num = 0
  · rw [if_pos hnum, if_pos (hzero.1 hnum)]
  · rw [if_neg hnum, if_neg (fun hz => hnum (hzero.2 hz)), binaryOrder_congr hr hq hnum h]
    have hscaled : ∀ e, (r.scaleDown e).nearestEven = (q.scaleDown e).nearestEven := by
      intro e
      refine nearestEven_congr (den_scaleDown_pos hr e) (den_scaleDown_pos hq e) ?_
      rw [value_scaleDown, value_scaleDown, h]
    simp only [hscaled]

theorem ofRatio_of_value_eq_zero (negative : Bool) {r : Ratio} (hr : 0 < r.den)
    (h : r.value = 0) : ofRatio negative r = zero negative := by
  unfold ofRatio
  rw [if_pos ((value_eq_zero_iff hr).1 h)]

/-- Rounding is the identity on the numbers of canonical pairs. -/
theorem ofRatio_of_canonical (negative : Bool) {r : Ratio} (hr : 0 < r.den) {m : Nat} {e : Int}
    (canonical : CanonicalPair m e) (hm : m ≠ 0) (h : r.value = m * (2 : ℚ) ^ e) :
    ofRatio negative r = .finite negative m e canonical := by
  have hmpos : (0 : ℚ) < m := by exact_mod_cast Nat.pos_of_ne_zero hm
  have hnum : r.num ≠ 0 := by
    intro hz
    have hval : (m : ℚ) * (2 : ℚ) ^ e = 0 := by rw [← h]; exact (value_eq_zero_iff hr).2 hz
    have hprod : (0 : ℚ) < m * (2 : ℚ) ^ e := by positivity
    exact hprod.ne' hval
  obtain ⟨hbelow, hleast, -, hfull⟩ := id canonical
  have hexponent : max (r.binaryOrder - 52) (-1074) = e := by
    have hlt : r.value < (2 : ℚ) ^ (e + 53) := by
      rw [h, zpow_add₀ two_ne_zero, mul_comm]
      refine mul_lt_mul_of_pos_left ?_ (by positivity)
      have : (m : ℚ) < (mantissaEnd : Nat) := by exact_mod_cast hbelow
      exact this.trans_le (by norm_num [mantissaEnd])
    have hupper := binaryOrder_lt hr hnum hlt
    rcases hfull with hfull | hsub
    · have hge : (2 : ℚ) ^ (e + 52) ≤ r.value := by
        rw [h, zpow_add₀ two_ne_zero, mul_comm]
        refine mul_le_mul_of_nonneg_right ?_ (by positivity)
        have : ((leastFull : Nat) : ℚ) ≤ m := by exact_mod_cast hfull
        exact le_trans (by norm_num [leastFull]) this
      have hlower := le_binaryOrder hr hnum hge
      omega
    · omega
  have hmantissa : (r.scaleDown e).nearestEven = m := by
    refine nearestEven_of_value_eq (den_scaleDown_pos hr e) ?_
    rw [value_scaleDown, h, mul_div_assoc, div_self (by positivity), mul_one]
  unfold ofRatio
  rw [if_neg hnum]
  simp only [hexponent, hmantissa]
  rw [if_neg (by omega), ofPair, dif_pos canonical]

/-- What is less than half of the least number rounds to zero. -/
theorem ofRatio_of_value_lt (negative : Bool) {r : Ratio} (hr : 0 < r.den)
    (h : r.value < (2 : ℚ) ^ (-1075 : Int)) : ofRatio negative r = zero negative := by
  by_cases hnum : r.num = 0
  · exact ofRatio_of_value_eq_zero negative hr ((value_eq_zero_iff hr).2 hnum)
  · have horder := binaryOrder_lt hr hnum h
    have hexponent : max (r.binaryOrder - 52) (-1074) = -1074 := by omega
    have hmantissa : (r.scaleDown (-1074)).nearestEven = 0 := by
      refine nearestEven_of_value_lt_half (den_scaleDown_pos hr _) ?_
      rw [value_scaleDown, div_lt_iff₀ (by positivity)]
      refine h.trans_eq ?_
      rw [show (-1075 : Int) = -1 + -1074 by norm_num, zpow_add₀ two_ne_zero]
      norm_num
    unfold ofRatio
    rw [if_neg hnum]
    simp only [hexponent, hmantissa]
    rfl

/-- What is far beyond the greatest finite number rounds to infinity. -/
theorem ofRatio_of_le_value (negative : Bool) {r : Ratio} (hr : 0 < r.den)
    (h : (2 : ℚ) ^ (1024 : Int) ≤ r.value) : ofRatio negative r = .infinite negative := by
  have hnum : r.num ≠ 0 := by
    intro hz
    have hval := (value_eq_zero_iff hr).2 hz
    have hpos : (0 : ℚ) < (2 : ℚ) ^ (1024 : Int) := by positivity
    exact (hpos.trans_le h).ne' hval
  have horder := le_binaryOrder hr hnum h
  have hexponent : (971 : Int) < max (r.binaryOrder - 52) (-1074) := by omega
  have hpair : ∀ m e, 971 < e → ofPair negative m e = .infinite negative := by
    intro m e he
    rw [ofPair, dif_neg]
    rintro ⟨-, -, hle, -⟩
    omega
  unfold ofRatio
  rw [if_neg hnum]
  simp only
  split
  · exact hpair _ _ (by omega)
  · exact hpair _ _ hexponent

private theorem two_pow_le {n : Nat} (hn : n ≤ 1200) : (2 : ℚ) ^ n ≤ (10 : ℚ) ^ 400 := by
  calc (2 : ℚ) ^ n ≤ (2 : ℚ) ^ (3 * 400) := pow_le_pow_right₀ (by norm_num) hn
    _ = ((2 : ℚ) ^ 3) ^ 400 := pow_mul _ _ _
    _ ≤ (10 : ℚ) ^ 400 := pow_le_pow_left₀ (by positivity) (by norm_num) 400

/-- A decimal that is small by the sizes of its parts is less than half of the least number. -/
private theorem decimal_value_lt {m : Nat} {e : Int}
    (h : ((m.log2 : Int) + 1) * 31 / 100 + e < -400) :
    (m : ℚ) * (10 : ℚ) ^ e < (2 : ℚ) ^ (-1075 : Int) := by
  set k := m.log2 + 1 with hk
  have hsize : (k : Int) * 31 + e * 100 ≤ -400 * 100 := by omega
  have hhundred : ((2 : ℚ) ^ k * (10 : ℚ) ^ e) ^ 100 ≤ ((10 : ℚ) ^ (-400 : Int)) ^ 100 := by
    calc ((2 : ℚ) ^ k * (10 : ℚ) ^ e) ^ 100 = ((2 : ℚ) ^ 100) ^ k * (10 : ℚ) ^ (e * 100) := by
          rw [mul_pow, ← pow_mul, Nat.mul_comm, pow_mul, zpow_mul]
          rfl
      _ ≤ ((10 : ℚ) ^ 31) ^ k * (10 : ℚ) ^ (e * 100) := by
          refine mul_le_mul_of_nonneg_right ?_ (by positivity)
          exact pow_le_pow_left₀ (by positivity) (by norm_num) k
      _ = (10 : ℚ) ^ ((k : Int) * 31 + e * 100) := by
          rw [zpow_add₀ (by norm_num), ← pow_mul, Nat.mul_comm, ← zpow_natCast]
          norm_num
      _ ≤ (10 : ℚ) ^ (-400 * 100 : Int) := zpow_le_zpow_right₀ (by norm_num) hsize
      _ = ((10 : ℚ) ^ (-400 : Int)) ^ 100 := by
          rw [zpow_mul]
          rfl
  have hle : (2 : ℚ) ^ k * (10 : ℚ) ^ e ≤ (10 : ℚ) ^ (-400 : Int) :=
    le_of_pow_le_pow_left₀ (by norm_num) (by positivity) hhundred
  have hten : (10 : ℚ) ^ (-400 : Int) ≤ (2 : ℚ) ^ (-1075 : Int) := by
    rw [zpow_neg, zpow_neg, inv_le_inv₀ (by positivity) (by positivity)]
    exact two_pow_le (n := 1075) (by decide)
  calc (m : ℚ) * (10 : ℚ) ^ e < (2 : ℚ) ^ k * (10 : ℚ) ^ e :=
        mul_lt_mul_of_pos_right (Ratio.lt_pow_log2 m) (by positivity)
    _ ≤ (2 : ℚ) ^ (-1075 : Int) := hle.trans hten

/-- A decimal that is great by the sizes of its parts is beyond the greatest finite number. -/
private theorem le_decimal_value {m : Nat} (hm : m ≠ 0) {e : Int}
    (h : 400 < (m.log2 : Int) * 3 / 10 + e) :
    (2 : ℚ) ^ (1024 : Int) ≤ (m : ℚ) * (10 : ℚ) ^ e := by
  set k := m.log2 with hk
  have hsize : 400 * 10 ≤ (k : Int) * 3 + e * 10 := by omega
  have htenth : ((10 : ℚ) ^ (400 : Int)) ^ 10 ≤ ((2 : ℚ) ^ k * (10 : ℚ) ^ e) ^ 10 := by
    calc ((10 : ℚ) ^ (400 : Int)) ^ 10 = (10 : ℚ) ^ (400 * 10 : Int) := by
          rw [zpow_mul]
          rfl
      _ ≤ (10 : ℚ) ^ ((k : Int) * 3 + e * 10) := zpow_le_zpow_right₀ (by norm_num) hsize
      _ = ((10 : ℚ) ^ 3) ^ k * (10 : ℚ) ^ (e * 10) := by
          rw [zpow_add₀ (by norm_num), ← pow_mul, Nat.mul_comm, ← zpow_natCast]
          norm_num
      _ ≤ ((2 : ℚ) ^ 10) ^ k * (10 : ℚ) ^ (e * 10) := by
          refine mul_le_mul_of_nonneg_right ?_ (by positivity)
          exact pow_le_pow_left₀ (by positivity) (by norm_num) k
      _ = ((2 : ℚ) ^ k * (10 : ℚ) ^ e) ^ 10 := by
          rw [mul_pow, ← pow_mul, Nat.mul_comm, pow_mul, zpow_mul]
          rfl
  have hle : (10 : ℚ) ^ (400 : Int) ≤ (2 : ℚ) ^ k * (10 : ℚ) ^ e :=
    le_of_pow_le_pow_left₀ (by norm_num) (by positivity) htenth
  have hten : (2 : ℚ) ^ (1024 : Int) ≤ (10 : ℚ) ^ (400 : Int) :=
    two_pow_le (n := 1024) (by decide)
  calc (2 : ℚ) ^ (1024 : Int) ≤ (2 : ℚ) ^ k * (10 : ℚ) ^ e := hten.trans hle
    _ ≤ (m : ℚ) * (10 : ℚ) ^ e := mul_le_mul_of_nonneg_right (Ratio.pow_log2_le hm) (by positivity)

/-- The shortcuts of rounding a decimal agree with rounding its exact value. -/
theorem ofDecimal_eq_ofRatio (negative : Bool) (m : Nat) (e : Int) :
    ofDecimal negative m e = ofRatio negative (.ofDecimal m e) := by
  have hden := den_ofDecimal_pos m e
  unfold ofDecimal
  split
  · rename_i h
    rcases h with rfl | h
    · exact (ofRatio_of_value_eq_zero negative hden (by simp [value_ofDecimal])).symm
    · refine (ofRatio_of_value_lt negative hden ?_).symm
      rw [value_ofDecimal]
      exact decimal_value_lt h
  · rename_i hnot
    split
    · rename_i h
      refine (ofRatio_of_le_value negative hden ?_).symm
      rw [value_ofDecimal]
      exact le_decimal_value (fun hm => hnot (.inl hm)) h
    · rfl

/-- Two decimals of one value are read as the same number. -/
theorem ofDecimal_congr (negative : Bool) {m n : Nat} {e f : Int}
    (h : (m : ℚ) * (10 : ℚ) ^ e = n * (10 : ℚ) ^ f) :
    ofDecimal negative m e = ofDecimal negative n f := by
  rw [ofDecimal_eq_ofRatio, ofDecimal_eq_ofRatio]
  refine ofRatio_congr negative (den_ofDecimal_pos m e) (den_ofDecimal_pos n f) ?_
  rw [value_ofDecimal, value_ofDecimal, h]

end Binary64

end FormDesigner
