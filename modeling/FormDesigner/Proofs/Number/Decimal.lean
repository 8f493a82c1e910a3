import FormDesigner.Number.Decimal
import FormDesigner.Proofs.Number.Rounding
import FormDesigner.Text.Numeral
import Mathlib.Data.List.TakeWhile

/-!
# The text of a number reads back

The shortest decimal of a finite number rounds to that number: either it was found among the
decimals of few digits, which are tested for this, or it is the exact decimal. The layout of a
decimal is a whole part, a fraction and an exponent that write the decimal's value, so that reading
the text gives the number again.
-/

namespace FormDesigner

namespace Text

theorem digitsValue_eq_ofDigitChars (ds : List Char) :
    digitsValue ds = Nat.ofDigitChars 10 ds 0 := by
  simp only [digitsValue, Nat.ofDigitChars_eq_foldl, Nat.mul_comm 10]
  rfl

theorem digitsValue_append (ds es : List Char) :
    digitsValue (ds ++ es) = digitsValue ds * 10 ^ es.length + digitsValue es := by
  rw [digitsValue_eq_ofDigitChars, digitsValue_eq_ofDigitChars, digitsValue_eq_ofDigitChars,
    Nat.ofDigitChars_append, Nat.ofDigitChars_eq_ofDigitChars_zero, Nat.mul_comm]

@[simp] theorem digitsValue_toDigits (n : Nat) : digitsValue (Nat.toDigits 10 n) = n := by
  rw [digitsValue_eq_ofDigitChars, Nat.ofDigitChars_ten_toDigits]

@[simp] theorem digitsValue_replicate_zero (n : Nat) :
    digitsValue (List.replicate n '0') = 0 := by
  rw [digitsValue_eq_ofDigitChars, Nat.ofDigitChars_replicate_zero, Nat.mul_zero]

/-- A run of digits writes a number that has no more digits. -/
theorem digitsValue_lt {ds : List Char} (hds : ∀ c ∈ ds, c.isDigit = true) :
    digitsValue ds < 10 ^ ds.length := by
  induction ds using List.reverseRecOn with
  | nil => exact Nat.one_pos
  | append_singleton ds d ih =>
      have hd : d.toNat - 0x30 ≤ 9 := by
        have := hds d (by simp)
        simp only [Char.isDigit, Bool.and_eq_true, decide_eq_true_eq] at this
        have h9 : d.toNat ≤ 57 := this.2
        omega
      have hlt := ih fun c hc => hds c (List.mem_append_left _ hc)
      have hone : digitsValue [d] = d.toNat - 0x30 := by simp [digitsValue]
      rw [digitsValue_append, hone, List.length_append, List.length_singleton, pow_one, pow_succ]
      omega

/-- A number that is read from digits is not too long to be written out. -/
theorem boundedDigits_lt {ds : List Char} {n : Nat} (hds : ∀ c ∈ ds, c.isDigit = true)
    (h : boundedDigits ds = .ok n) : n < Nat.pow 10 maxIntegerDigits := by
  unfold boundedDigits at h
  split at h
  · cases h
  · rename_i hlength
    rw [← Except.ok.inj h]
    generalize maxIntegerDigits = limit at hlength ⊢
    exact Nat.lt_of_lt_of_le (digitsValue_lt hds)
      (Nat.pow_le_pow_right (by decide) (not_lt.1 hlength))

/-- A positive number is written without leading zeros. -/
theorem head?_toDigits_ne_zero {n : Nat} (hn : n ≠ 0) : (Nat.toDigits 10 n).head? ≠ some '0' := by
  induction n using Nat.strong_induction_on with
  | _ n ih =>
    by_cases hsmall : n < 10
    · rw [Nat.toDigits_of_lt_base hsmall]
      intro h
      have hdigit : n.digitChar = '0' := by simpa using h
      have hvalue := Nat.toNat_digitChar_sub_48_of_lt_ten hsmall
      rw [hdigit] at hvalue
      exact hn hvalue.symm
    · rw [Nat.toDigits_of_base_le (by decide) (by omega)]
      have hquotient := ih (n / 10) (by omega) (by omega)
      cases hds : Nat.toDigits 10 (n / 10) with
      | nil => exact absurd hds Nat.toDigits_ne_nil
      | cons d ds => simpa [hds] using hquotient

/-- What may follow a number without being taken for a part of it. -/
def EndsNumber (rest : List Char) : Prop :=
  ∀ c ∈ rest.head?, c.isDigit = false ∧ c ≠ '.' ∧ c ≠ 'e' ∧ c ≠ 'E'

theorem endsNumber_nil : EndsNumber [] := by
  intro c hc
  simp at hc

theorem takeWhile_isDigit_append {ds rest : List Char} (hds : ∀ c ∈ ds, c.isDigit = true)
    (hrest : ∀ c ∈ rest.head?, c.isDigit = false) :
    (ds ++ rest).takeWhile Char.isDigit = ds := by
  rw [List.takeWhile_append_of_pos hds]
  cases rest with
  | nil => simp
  | cons c rest => simp [hrest c (by simp)]

theorem dropWhile_isDigit_append {ds rest : List Char} (hds : ∀ c ∈ ds, c.isDigit = true)
    (hrest : ∀ c ∈ rest.head?, c.isDigit = false) :
    (ds ++ rest).dropWhile Char.isDigit = rest := by
  rw [List.dropWhile_append_of_pos hds]
  cases rest with
  | nil => simp
  | cons c rest => simp [hrest c (by simp)]

end Text

namespace Binary64

variable {negative : Bool} {label : Nat}

theorem ofPair_ne_nan {m : Nat} {e : Int} : ofPair negative m e ≠ .nan label := by
  unfold ofPair
  split <;> simp

theorem ofRatio_ne_nan {r : Ratio} : ofRatio negative r ≠ .nan label := by
  unfold ofRatio
  dsimp only
  split
  · simp [zero]
  · split
    · exact ofPair_ne_nan
    · exact ofPair_ne_nan

theorem ofDecimal_ne_nan {m : Nat} {e : Int} : ofDecimal negative m e ≠ .nan label := by
  unfold ofDecimal
  split
  · simp [zero]
  · split
    · simp
    · exact ofRatio_ne_nan

end Binary64

namespace Decimal

/-- The rational number that a decimal writes. -/
def value (d : Decimal) : ℚ := d.digits * (10 : ℚ) ^ d.exponent

/-- Decimals of one value are read as the same number. -/
theorem toBinary_congr {d e : Decimal} (h : d.value = e.value) (negative : Bool) :
    d.toBinary negative = e.toBinary negative :=
  Binary64.ofDecimal_congr negative h

end Decimal

/-- A decimal by the parts that stand in its text. -/
structure WrittenDecimal where
  whole : List Char
  fraction : List Char
  exponent : Option Int

namespace WrittenDecimal

def fractionChars (w : WrittenDecimal) : List Char :=
  if w.fraction = [] then [] else '.' :: w.fraction

def exponentChars (w : WrittenDecimal) : List Char :=
  match w.exponent with
  | none => []
  | some e => (Binary64.exponentText e).toList

def chars (w : WrittenDecimal) : List Char := w.whole ++ w.fractionChars ++ w.exponentChars

/-- The decimal that the parts write. -/
def decimal (w : WrittenDecimal) : Decimal :=
  ⟨Text.digitsValue (w.whole ++ w.fraction), w.exponent.getD 0 - w.fraction.length⟩

/-- The parts of a number as JSON writes it: digits without leading zeros, then more digits. -/
structure IsProper (w : WrittenDecimal) : Prop where
  whole_digits : ∀ c ∈ w.whole, c.isDigit = true
  fraction_digits : ∀ c ∈ w.fraction, c.isDigit = true
  whole_ne_nil : w.whole ≠ []
  whole_head : w.whole = ['0'] ∨ w.whole.head? ≠ some '0'

/-- The digits of an exponent, of which there are at least two. -/
def exponentDigits (e : Int) : List Char :=
  let ds := Nat.toDigits 10 e.natAbs
  if ds.length < 2 then '0' :: ds else ds

theorem exponentText_toList (e : Int) :
    (Binary64.exponentText e).toList =
      'e' :: (if e < 0 then '-' else '+') :: exponentDigits e := by
  simp only [Binary64.exponentText, exponentDigits, String.toList_append,
    Nat.toString_eq_ofList_toDigits, String.length_ofList]
  split <;> split <;> simp

theorem exponentDigits_isDigit (e : Int) : ∀ c ∈ exponentDigits e, c.isDigit = true := by
  intro c hc
  simp only [exponentDigits] at hc
  split at hc
  · rcases List.mem_cons.1 hc with rfl | hc
    · rfl
    · exact Nat.isDigit_of_mem_toDigits (by decide) (by decide) hc
  · exact Nat.isDigit_of_mem_toDigits (by decide) (by decide) hc

theorem exponentDigits_ne_nil (e : Int) : exponentDigits e ≠ [] := by
  simp only [exponentDigits]
  split
  · simp
  · exact Nat.toDigits_ne_nil

theorem digitsValue_exponentDigits (e : Int) :
    Text.digitsValue (exponentDigits e) = e.natAbs := by
  have hzero : ∀ ds, Text.digitsValue ('0' :: ds) = Text.digitsValue ds := by
    intro ds
    rw [← List.singleton_append, Text.digitsValue_append]
    simp [Text.digitsValue]
  simp only [exponentDigits]
  split <;> simp [hzero]

theorem exponent?_exponentText (e : Int) :
    Text.exponent? ((if e < 0 then '-' else '+') :: exponentDigits e) = some e := by
  have hall : (exponentDigits e).all Char.isDigit = true := by
    simpa using exponentDigits_isDigit e
  have hne := exponentDigits_ne_nil e
  unfold Text.exponent?
  by_cases he : e < 0
  · simp [he, Text.splitSign, hall, hne, digitsValue_exponentDigits, -Nat.cast_natAbs]
    omega
  · simp [he, Text.splitSign, hall, hne, digitsValue_exponentDigits, -Nat.cast_natAbs]
    omega

theorem exponentChars_head (w : WrittenDecimal) :
    ∀ c ∈ w.exponentChars.head?, c = 'e' := by
  intro c hc
  unfold exponentChars at hc
  split at hc
  · simp at hc
  · rw [exponentText_toList] at hc
    simpa using hc.symm

theorem not_isDigit_exponentChars_head (w : WrittenDecimal) :
    ∀ c ∈ w.exponentChars.head?, c.isDigit = false := by
  intro c hc
  rw [w.exponentChars_head c hc]
  rfl

theorem not_isDigit_tail_head (w : WrittenDecimal) :
    ∀ c ∈ (w.fractionChars ++ w.exponentChars).head?, c.isDigit = false := by
  intro c hc
  unfold fractionChars at hc
  split at hc
  · exact w.not_isDigit_exponentChars_head c (by simpa using hc)
  · have : c = '.' := by simpa using hc.symm
    rw [this]
    rfl

/-- The parts are found again in the text. -/
theorem decimal?_chars {w : WrittenDecimal} (hw : w.IsProper) :
    Text.decimal? w.chars = some w.decimal := by
  have hwhole : w.chars.takeWhile Char.isDigit = w.whole := by
    rw [chars, List.append_assoc]
    exact Text.takeWhile_isDigit_append hw.whole_digits w.not_isDigit_tail_head
  have hrest : w.chars.drop w.whole.length = w.fractionChars ++ w.exponentChars := by
    rw [chars, List.append_assoc, List.drop_left]
  unfold Text.decimal?
  simp only [hwhole, hrest]
  by_cases hfraction : w.fraction = []
  · have hdot : ∀ tail, w.fractionChars ++ w.exponentChars ≠ '.' :: tail := by
      intro tail h
      rw [fractionChars, if_pos hfraction, List.nil_append] at h
      exact absurd (w.exponentChars_head '.' (by simp [h])) (by decide)
    split
    · rename_i tail h
      exact absurd h (hdot tail)
    · cases hexponent : w.exponent with
      | none =>
          simp [fractionChars, exponentChars, decimal, hfraction, hexponent, hw.whole_ne_nil]
      | some e =>
          simp [fractionChars, exponentChars, decimal, hfraction, hexponent, hw.whole_ne_nil,
            exponentText_toList, exponent?_exponentText]
  · have htake := Text.takeWhile_isDigit_append hw.fraction_digits
      w.not_isDigit_exponentChars_head
    have hdrop := Text.dropWhile_isDigit_append hw.fraction_digits
      w.not_isDigit_exponentChars_head
    rw [fractionChars, if_neg hfraction, List.cons_append]
    simp only [htake, hdrop]
    cases hexponent : w.exponent with
    | none => simp [exponentChars, decimal, hexponent, hw.whole_ne_nil]
    | some e =>
        simp [exponentChars, decimal, hexponent, hw.whole_ne_nil, exponentText_toList,
          exponent?_exponentText]

end WrittenDecimal

namespace Binary64

/-- The digits of a number without the zeros at the end, and how many of these there are. -/
private theorem stripZeros_append (digits : List Char) :
    ∃ n, digits = stripZeros digits ++ List.replicate n '0' := by
  have hzeros : ∀ c ∈ digits.reverse.takeWhile (· = '0'), c = '0' := by
    intro c hc
    simpa using List.mem_takeWhile_imp hc
  refine ⟨(digits.reverse.takeWhile (· = '0')).length, ?_⟩
  rw [← List.eq_replicate_of_mem hzeros, stripZeros]
  have hsplit := List.takeWhile_append_dropWhile (p := (· = '0')) (l := digits.reverse)
  have := congrArg List.reverse hsplit
  rw [List.reverse_append, List.reverse_reverse] at this
  rw [List.eq_replicate_of_mem hzeros] at this ⊢
  simpa using this.symm

/-- What the layout of a decimal starts from: its digits without the zeros at the end. -/
private structure Digits (d : Decimal) (ds : List Char) (order : Int) : Prop where
  digit : ∀ c ∈ ds, c.isDigit = true
  ne_nil : ds ≠ []
  head : ds.head? ≠ some '0'
  value : d.value = Text.digitsValue ds * (10 : ℚ) ^ (order + 1 - ds.length)

private theorem digits_stripZeros {d : Decimal} (hd : d.digits ≠ 0) :
    Digits d (stripZeros (Nat.toDigits 10 d.digits))
      (d.exponent + (Nat.toDigits 10 d.digits).length - 1) := by
  obtain ⟨n, hn⟩ := stripZeros_append (Nat.toDigits 10 d.digits)
  set ds := stripZeros (Nat.toDigits 10 d.digits) with hds
  have hhead := Text.head?_toDigits_ne_zero hd
  have hne : ds ≠ [] := by
    intro h
    rw [h, List.nil_append] at hn
    cases n with
    | zero => exact Nat.toDigits_ne_nil hn
    | succ n => exact hhead (by rw [hn, List.replicate_succ, List.head?_cons])
  refine ⟨?_, hne, ?_, ?_⟩
  · intro c hc
    refine Nat.isDigit_of_mem_toDigits (b := 10) (n := d.digits) (by decide) (by decide) ?_
    rw [hn]
    exact List.mem_append_left _ hc
  · rw [hn, List.head?_append_of_ne_nil _ hne] at hhead
    exact hhead
  · have hvalue : d.digits = Text.digitsValue ds * 10 ^ n := by
      have := congrArg Text.digitsValue hn
      rw [Text.digitsValue_toDigits, Text.digitsValue_append] at this
      simpa using this
    have hlength : (Nat.toDigits 10 d.digits).length = ds.length + n := by
      have := congrArg List.length hn
      simpa using this
    have hexponent : d.exponent + (Nat.toDigits 10 d.digits).length - 1 + 1 - ds.length =
        n + d.exponent := by
      rw [hlength]
      omega
    rw [hexponent, Decimal.value, hvalue, zpow_add₀ (by norm_num), zpow_natCast]
    push_cast
    ring

/-- A layout with an exponent has one digit before the point. -/
private theorem layout_scientific {d : Decimal} {ds : List Char} {order : Int}
    (h : Digits d ds order) :
    ∃ w : WrittenDecimal, w.IsProper ∧ w.exponent.isSome ∧
      ds.take 1 ++ (if ds.drop 1 = [] then [] else '.' :: ds.drop 1) ++
        (exponentText order).toList = w.chars ∧ w.decimal.value = d.value := by
  obtain ⟨c, tail, rfl⟩ := List.exists_cons_of_ne_nil h.ne_nil
  refine ⟨⟨[c], tail, some order⟩, ⟨?_, ?_, by simp, ?_⟩, rfl, rfl, ?_⟩
  · intro b hb
    exact h.digit b (List.mem_cons.2 (.inl (by simpa using hb)))
  · intro b hb
    exact h.digit b (List.mem_cons_of_mem _ hb)
  · exact .inr (by simpa using h.head)
  · rw [h.value]
    simp [WrittenDecimal.decimal, Decimal.value, add_sub_add_right_eq_sub]

/-- A layout without an exponent that starts with a zero. -/
private theorem layout_small {d : Decimal} {ds : List Char} {order : Int}
    (h : Digits d ds order) (horder : order < 0) :
    ∃ w : WrittenDecimal, w.IsProper ∧ w.fraction ≠ [] ∧
      '0' :: '.' :: (List.replicate (-order - 1).toNat '0' ++ ds) = w.chars ∧
      w.decimal.value = d.value := by
  refine ⟨⟨['0'], List.replicate (-order - 1).toNat '0' ++ ds, none⟩, ⟨?_, ?_, by simp, .inl rfl⟩,
    by simp [h.ne_nil], by simp [WrittenDecimal.chars, WrittenDecimal.fractionChars,
      WrittenDecimal.exponentChars, h.ne_nil], ?_⟩
  · intro b hb
    rw [List.mem_singleton.1 hb]
    rfl
  · intro b hb
    rcases List.mem_append.1 hb with hb | hb
    · rw [List.eq_of_mem_replicate hb]
      rfl
    · exact h.digit b hb
  · have hdigits : Text.digitsValue ('0' :: (List.replicate (-order - 1).toNat '0' ++ ds)) =
        Text.digitsValue ds := by
      rw [← List.singleton_append, ← List.append_assoc, Text.digitsValue_append]
      have hzeros : ['0'] ++ List.replicate (-order - 1).toNat '0' =
          List.replicate ((-order - 1).toNat + 1) '0' := rfl
      rw [hzeros, Text.digitsValue_replicate_zero, Nat.zero_mul, Nat.zero_add]
    have hexponent : (0 : Int) - (List.replicate (-order - 1).toNat '0' ++ ds).length =
        order + 1 - ds.length := by
      rw [List.length_append, List.length_replicate]
      omega
    rw [h.value]
    simp only [WrittenDecimal.decimal, Decimal.value, List.singleton_append, Option.getD_none]
    rw [hdigits, hexponent]

/-- The digits of a whole part, with zeros behind them if there are too few. -/
private theorem whole_isProper {d : Decimal} {ds : List Char} {order : Int} {size : Nat}
    (h : Digits d ds order) (hpos : 0 < size) :
    let whole := ds.take size ++ List.replicate (size - (ds.take size).length) '0'
    (∀ c ∈ whole, c.isDigit = true) ∧ whole ≠ [] ∧ whole.head? ≠ some '0' := by
  refine ⟨fun c hc => ?_, fun hnil => ?_, ?_⟩
  · rcases List.mem_append.1 hc with hc | hc
    · exact h.digit c (List.mem_of_mem_take hc)
    · rw [List.eq_of_mem_replicate hc]
      rfl
  · have hlength := congrArg List.length hnil
    simp at hlength
    omega
  · obtain ⟨c, tail, rfl⟩ := List.exists_cons_of_ne_nil h.ne_nil
    obtain ⟨n, rfl⟩ := Nat.exists_eq_succ_of_ne_zero hpos.ne'
    simpa using h.head

/-- A layout without an exponent that starts with the digits of the whole part. -/
private theorem layout_whole {d : Decimal} {ds : List Char} {order : Int} (size : Nat)
    (h : Digits d ds order) (hsize : order + 1 = size) (hpos : 0 < size) :
    ∃ w : WrittenDecimal, w.IsProper ∧ w.fraction ≠ [] ∧
      ds.take size ++ List.replicate (size - (ds.take size).length) '0' ++
        '.' :: (if ds.drop size = [] then ['0'] else ds.drop size) = w.chars ∧
      w.decimal.value = d.value := by
  obtain ⟨hwhole, hne, hhead⟩ := whole_isProper h hpos
  by_cases hdrop : ds.drop size = []
  · have hlength : ds.length ≤ size := List.drop_eq_nil_iff.1 hdrop
    refine ⟨⟨_, ['0'], none⟩, ⟨hwhole, ?_, hne, .inr hhead⟩, by simp, ?_, ?_⟩
    · intro c hc
      rw [List.mem_singleton.1 hc]
      rfl
    · simp [WrittenDecimal.chars, WrittenDecimal.fractionChars, WrittenDecimal.exponentChars, hdrop]
    · have hexponent : order + 1 - ds.length = ((size - ds.length : Nat) : Int) := by omega
      rw [h.value, hexponent]
      have hzeros : List.replicate (size - ds.length) '0' ++ ['0'] =
          List.replicate (size - ds.length + 1) '0' := List.replicate_succ'.symm
      simp only [WrittenDecimal.decimal, Decimal.value, List.take_of_length_le hlength,
        List.append_assoc, hzeros, Text.digitsValue_append, Text.digitsValue_replicate_zero,
        List.length_replicate]
      simp [pow_succ, mul_assoc]
  · refine ⟨⟨_, ds.drop size, none⟩, ⟨hwhole, ?_, hne, .inr hhead⟩, hdrop, ?_, ?_⟩
    · intro c hc
      exact h.digit c (List.mem_of_mem_drop hc)
    · simp [WrittenDecimal.chars, WrittenDecimal.fractionChars, WrittenDecimal.exponentChars, hdrop]
    · have hlength : size < ds.length := by
        by_contra hle
        exact hdrop (List.drop_eq_nil_of_le (by omega))
      have htake : size - (ds.take size).length = 0 := by
        rw [List.length_take]
        omega
      rw [h.value]
      simp only [WrittenDecimal.decimal, Decimal.value, htake, List.replicate_zero,
        List.append_nil, List.take_append_drop, List.length_drop, Option.getD_none]
      congr 2
      omega

/-- The layout of a decimal writes its value, with a fraction or an exponent. -/
theorem layout_eq_chars {d : Decimal} (hd : d.digits ≠ 0) :
    ∃ w : WrittenDecimal, w.IsProper ∧ (w.fraction ≠ [] ∨ w.exponent.isSome) ∧
      (layout d).toList = w.chars ∧ w.decimal.value = d.value := by
  have h := digits_stripZeros hd
  have hdigits : (toString d.digits).toList = Nat.toDigits 10 d.digits := by
    rw [Nat.toString_eq_ofList_toDigits, String.toList_ofList]
  unfold layout
  simp only [hdigits]
  set ds := stripZeros (Nat.toDigits 10 d.digits) with hds
  set order : Int := d.exponent + (Nat.toDigits 10 d.digits).length - 1 with horder
  split
  · obtain ⟨w, hw, hexponent, hchars, hvalue⟩ := layout_scientific h
    refine ⟨w, hw, .inr hexponent, ?_, hvalue⟩
    rw [← hchars, String.toList_append]
    congr 1
    by_cases htail : ds.drop 1 = []
    · simp only [htail, List.isEmpty_nil, if_true, String.toList_ofList, List.append_nil]
    · simp only [htail, List.isEmpty_iff, if_false, String.toList_append, String.toList_ofList]
      simp
  · split
    · rename_i hneg
      obtain ⟨w, hw, hfraction, hchars, hvalue⟩ := layout_small h hneg
      refine ⟨w, hw, .inl hfraction, ?_, hvalue⟩
      simp [← hchars]
    · rename_i hnonneg
      obtain ⟨w, hw, hfraction, hchars, hvalue⟩ :=
        layout_whole (order.toNat + 1) h (by omega) (by omega)
      refine ⟨w, hw, .inl hfraction, ?_, hvalue⟩
      rw [← hchars]
      by_cases htail : ds.drop (order.toNat + 1) = []
      · simp [htail]
      · simp [htail]

/-! ### Reading a number back -/

theorem exactDecimal_toBinary {negative : Bool} {m : Nat} {e : Int} (canonical : CanonicalPair m e)
    (hm : m ≠ 0) :
    (exactDecimal (.finite negative m e canonical)).toBinary negative =
      .finite negative m e canonical := by
  have hvalue : (exactDecimal (.finite negative m e canonical)).value = m * (2 : ℚ) ^ e := by
    simp only [exactDecimal]
    split
    · rename_i he
      obtain ⟨n, rfl⟩ := Int.eq_ofNat_of_zero_le he
      simp [Decimal.value]
    · rename_i he
      obtain ⟨n, rfl⟩ := Int.exists_eq_neg_ofNat (not_le.1 he).le
      have hten : (10 : ℚ) ^ n = 5 ^ n * 2 ^ n := by
        rw [← mul_pow]
        norm_num
      simp [Decimal.value, hten]
      field_simp
  rw [Decimal.toBinary, ofDecimal_eq_ofRatio]
  refine ofRatio_of_canonical negative (Ratio.den_ofDecimal_pos _ _) canonical hm ?_
  rw [Ratio.value_ofDecimal]
  exact hvalue

/-- The shortest decimal of a number is read as that number. -/
theorem shortest_toBinary (negative : Bool) {m : Nat} {e : Int} (canonical : CanonicalPair m e)
    (hm : m ≠ 0) :
    (shortest (.finite negative m e canonical)).toBinary negative =
      .finite negative m e canonical := by
  unfold shortest
  cases hfound : (List.range 17).findSome? fun n =>
      withDigits? (.finite negative m e canonical) (n + 1) with
  | none => exact exactDecimal_toBinary canonical hm
  | some d =>
      obtain ⟨n, -, hd⟩ := List.exists_of_findSome?_eq_some hfound
      have hread := List.find?_some hd
      exact of_decide_eq_true hread

theorem shortest_digits_ne_zero (negative : Bool) {m : Nat} {e : Int}
    (canonical : CanonicalPair m e) (hm : m ≠ 0) :
    (shortest (.finite negative m e canonical)).digits ≠ 0 := by
  intro hzero
  have hread := shortest_toBinary negative canonical hm
  have hdecimal : (shortest (.finite negative m e canonical)).toBinary negative =
      zero negative := by
    rw [Decimal.toBinary, hzero, ofDecimal, if_pos (.inl rfl)]
  rw [hdecimal, zero] at hread
  injection hread with _ hmantissa
  exact hm hmantissa.symm

/-- The text of a finite number is a sign and a decimal that is read as the number. -/
theorem text_eq_chars (negative : Bool) {m : Nat} {e : Int} (canonical : CanonicalPair m e) :
    ∃ w : WrittenDecimal, w.IsProper ∧ (w.fraction ≠ [] ∨ w.exponent.isSome) ∧
      (text (.finite negative m e canonical)).toList =
        (if negative then ['-'] else []) ++ w.chars ∧
      w.decimal.toBinary negative = .finite negative m e canonical := by
  by_cases hm : m = 0
  · subst hm
    have he : e = -1074 := by
      rcases canonical.2.2.2 with h | h
      · exact absurd h (by decide)
      · exact h
    subst he
    refine ⟨⟨['0'], ['0'], none⟩, ⟨?_, ?_, by simp, .inl rfl⟩, .inl (by simp), ?_, ?_⟩
    · intro c hc
      rw [List.mem_singleton.1 hc]
      rfl
    · intro c hc
      rw [List.mem_singleton.1 hc]
      rfl
    · cases negative <;> simp [text, isZero, isNegative, WrittenDecimal.chars,
        WrittenDecimal.fractionChars, WrittenDecimal.exponentChars]
    · cases negative <;> rfl
  · obtain ⟨w, hw, hfloat, hchars, hvalue⟩ :=
      layout_eq_chars (shortest_digits_ne_zero negative canonical hm)
    refine ⟨w, hw, hfloat, ?_, ?_⟩
    · rw [← hchars]
      obtain ⟨k, rfl⟩ := Nat.exists_eq_succ_of_ne_zero hm
      cases negative <;> simp [text, isZero, isNegative]
    · rw [Decimal.toBinary_congr hvalue, shortest_toBinary negative canonical hm]

end Binary64

end FormDesigner
