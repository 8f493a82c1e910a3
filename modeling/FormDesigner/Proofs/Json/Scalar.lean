import FormDesigner.Json.Reader
import FormDesigner.Json.Writer
import FormDesigner.Proofs.Number.Decimal
import Mathlib.Tactic.IntervalCases

/-!
# Scalars of JSON read back

The escape of each character is read as that character, in ASCII form as well as in the other, so a
text between its quotes is read as that text. An integer is read as itself as long as it can be
written at all, and a finite floating-point number is read as itself because its text is.
-/

namespace FormDesigner

namespace Json

/-! ### Text -/

private theorem hexValue?_hexDigit {n : Nat} (hn : n < 16) :
    hexValue? (Text.hexDigit n) = some n := by
  interval_cases n <;> rfl

private theorem hexUnit?_hexDigits {n : Nat} (hn : n < 0x10000) (rest : List Char) :
    hexUnit? (Text.hexDigits 4 n ++ rest) = some (n, rest) := by
  have hdigit : ∀ k, hexValue? (Text.hexDigit (k % 16)) = some (k % 16) :=
    fun k => hexValue?_hexDigit (Nat.mod_lt _ (by decide))
  have hsum : (((n / 16 / 16 / 16 % 16) * 16 + n / 16 / 16 % 16) * 16 + n / 16 % 16) * 16
      + n % 16 = n := by omega
  simp [Text.hexDigits, hexUnit?, hdigit, hsum]

private theorem textChar?_escapedUnit {n : Nat} (hn : n < 0x10000) (rest : List Char) :
    textChar? (Text.escapedUnit n ++ rest) = some (unitChar n rest) := by
  simp [Text.escapedUnit, textChar?, hexUnit?_hexDigits hn]

private theorem toNat_valid (c : Char) :
    c.toNat < 0xd800 ∨ 0xdfff < c.toNat ∧ c.toNat < 0x110000 := c.valid

private theorem unitChar_of_toNat {c : Char} (hc : c.toNat < 0x10000) (rest : List Char) :
    unitChar c.toNat rest = (c, rest) := by
  have hvalid := toNat_valid c
  unfold unitChar
  rw [if_neg (by omega), if_neg (by omega), Char.ofNat_toNat]

private theorem unitChar_pair {lead trail : Nat} (hlead : 0xd800 ≤ lead ∧ lead < 0xdc00)
    (htrail : 0xdc00 ≤ trail ∧ trail < 0xe000) (rest : List Char) :
    unitChar lead (Text.escapedUnit trail ++ rest) =
      (Char.ofNat (0x10000 + (lead - 0xd800) * 0x400 + (trail - 0xdc00)), rest) := by
  unfold unitChar
  rw [if_pos hlead]
  simp only [Text.escapedUnit, List.cons_append]
  rw [hexUnit?_hexDigits (by omega)]
  simp only [if_pos htrail]

/-- A character that needs no escape stands for itself. -/
private theorem textChar?_raw {c : Char} (hcontrol : ¬ c.toNat < 0x20) (hbackslash : c ≠ '\\')
    (rest : List Char) : textChar? (c :: rest) = some (c, rest) := by
  unfold textChar?
  split
  · rename_i h
    exact absurd (List.cons.inj h).1 hbackslash
  · rename_i h
    exact absurd (List.cons.inj h).1 hbackslash
  · rename_i h
    obtain ⟨rfl, rfl⟩ := List.cons.inj h
    rw [if_neg]
    simp only [Bool.or_eq_true, decide_eq_true_eq, not_or]
    exact ⟨hcontrol, hbackslash⟩
  · rename_i h
    cases h

/-- A character beyond the first plane is written as two units. -/
private theorem textChar?_pair {c : Char} (hc : ¬ c.toNat < 0x10000) (rest : List Char) :
    textChar? (Text.escapedUnit (0xd800 + (c.toNat - 0x10000) / 0x400) ++
      (Text.escapedUnit (0xdc00 + (c.toNat - 0x10000) % 0x400) ++ rest)) = some (c, rest) := by
  have hvalid := toNat_valid c
  have hsum : 0x10000 + (0xd800 + (c.toNat - 0x10000) / 0x400 - 0xd800) * 0x400 +
      (0xdc00 + (c.toNat - 0x10000) % 0x400 - 0xdc00) = c.toNat := by omega
  rw [textChar?_escapedUnit (by omega), unitChar_pair (by omega) (by omega), hsum,
    Char.ofNat_toNat]

/-- The escape of a character is read as that character. -/
theorem textChar?_escapedChar (ascii : Bool) (c : Char) (rest : List Char) :
    textChar? (Text.escapedChar ascii c ++ rest) = some (c, rest) := by
  have hnamed : ∀ {d : Char} {n : Nat}, c.toNat = n → d = Char.ofNat n → c = d := by
    intro d n hc hd
    rw [hd, ← hc, Char.ofNat_toNat]
  unfold Text.escapedChar
  split
  · rename_i h
    rcases Bool.or_eq_true_iff.1 h with h | h <;> rw [of_decide_eq_true h] <;> rfl
  split
  · rename_i h
    subst h
    rfl
  split
  · rename_i h
    subst h
    rfl
  split
  · rename_i h
    subst h
    rfl
  split
  · rename_i h
    rw [hnamed h (d := '\x08') rfl]
    rfl
  split
  · rename_i h
    rw [hnamed h (d := '\x0c') rfl]
    rfl
  split
  · rename_i h
    rw [textChar?_escapedUnit (by omega), unitChar_of_toNat (by omega)]
  rename_i hquote _ _ _ _ _ hcontrol
  split
  · exact textChar?_raw hcontrol (fun h => hquote (by simp [h])) rest
  split
  · rename_i h
    rw [textChar?_escapedUnit h, unitChar_of_toNat h]
  · rename_i h
    simp only [List.append_assoc]
    exact textChar?_pair h rest

/-- No escape begins with a quote, which would end the text. -/
private theorem escapedChar_eq_cons (ascii : Bool) (c : Char) :
    ∃ d tail, Text.escapedChar ascii c = d :: tail ∧ d ≠ '\x22' := by
  unfold Text.escapedChar
  split
  · exact ⟨_, _, rfl, by decide⟩
  iterate 5
    split
    · exact ⟨_, _, rfl, by decide⟩
  split
  · exact ⟨_, _, rfl, by decide⟩
  rename_i hquote _ _ _ _ _ _
  split
  · exact ⟨_, _, rfl, by rintro rfl; exact hquote rfl⟩
  split
  · exact ⟨_, _, rfl, by decide⟩
  · exact ⟨_, _, rfl, by decide⟩

private theorem textBody_escaped (ascii : Bool) (cs done rest : List Char) {fuel : Nat}
    (hfuel : (cs.flatMap (Text.escapedChar ascii)).length < fuel) :
    textBody fuel done (cs.flatMap (Text.escapedChar ascii) ++ '\x22' :: rest) =
      .ok (String.ofList (done.reverse ++ cs), rest) := by
  induction cs generalizing done fuel with
  | nil =>
      obtain ⟨fuel, rfl⟩ := Nat.exists_eq_succ_of_ne_zero (by omega : fuel ≠ 0)
      simp [textBody]
  | cons c cs ih =>
      obtain ⟨fuel, rfl⟩ := Nat.exists_eq_succ_of_ne_zero (by omega : fuel ≠ 0)
      obtain ⟨d, tail, hescape, hd⟩ := escapedChar_eq_cons ascii c
      have hread := textChar?_escapedChar ascii c
        (cs.flatMap (Text.escapedChar ascii) ++ '\x22' :: rest)
      have hlength : (cs.flatMap (Text.escapedChar ascii)).length < fuel := by
        rw [List.flatMap_cons, List.length_append, hescape, List.length_cons] at hfuel
        omega
      rw [List.flatMap_cons, List.append_assoc]
      rw [hescape, List.cons_append] at hread ⊢
      rw [textBody]
      · rw [hread]
        simp only
        rw [ih _ hlength]
        simp
      · rintro tail' h
        exact hd (List.cons.inj h).1

/-- A text between its quotes is read as that text. -/
theorem textBody_flatMap (ascii : Bool) (s : String) (rest : List Char) :
    textBody ((s.toList.flatMap (Text.escapedChar ascii) ++ '\x22' :: rest).length + 1) []
      (s.toList.flatMap (Text.escapedChar ascii) ++ '\x22' :: rest) = .ok (s, rest) := by
  rw [textBody_escaped ascii s.toList [] rest]
  · simp
  · simp only [List.length_append]
    omega

theorem toList_escaped (ascii : Bool) (s : String) :
    (Text.escaped ascii s).toList =
      '\x22' :: (s.toList.flatMap (Text.escapedChar ascii) ++ ['\x22']) := by
  simp [Text.escaped, Text.escapedChars]

/-! ### Numbers -/

private theorem fractionSize_append {w : WrittenDecimal} (hw : w.IsProper) {rest : List Char}
    (hrest : Text.EndsNumber rest) :
    fractionSize (w.fractionChars ++ (w.exponentChars ++ rest)) = w.fractionChars.length := by
  have hnext : ∀ c ∈ (w.exponentChars ++ rest).head?, c.isDigit = false ∧ c ≠ '.' := by
    intro c hc
    cases hexponent : w.exponentChars with
    | nil =>
        rw [hexponent, List.nil_append] at hc
        exact ⟨(hrest c hc).1, (hrest c hc).2.1⟩
    | cons d tail =>
        have hd : c = d := by simpa [hexponent] using hc.symm
        rw [hd, w.exponentChars_head d (by simp [hexponent])]
        decide
  unfold WrittenDecimal.fractionChars
  by_cases hfraction : w.fraction = []
  · rw [if_pos hfraction, List.nil_append]
    unfold fractionSize
    split
    · rename_i tail h
      exact absurd rfl (hnext '.' (by simp [h])).2
    · rfl
  · rw [if_neg hfraction, List.cons_append, fractionSize,
      Text.takeWhile_isDigit_append hw.fraction_digits (fun c hc => (hnext c hc).1)]
    simp [hfraction]

private theorem exponentSize_append (w : WrittenDecimal) {rest : List Char}
    (hrest : Text.EndsNumber rest) :
    exponentSize (w.exponentChars ++ rest) = w.exponentChars.length := by
  unfold WrittenDecimal.exponentChars
  cases w.exponent with
  | none =>
      cases rest with
      | nil => rfl
      | cons c rest =>
          obtain ⟨-, -, he, hE⟩ := hrest c (by simp)
          simp [exponentSize, he, hE]
  | some e =>
      have hdigits := Text.takeWhile_isDigit_append (WrittenDecimal.exponentDigits_isDigit e)
        (fun c hc => (hrest c hc).1)
      simp only [WrittenDecimal.exponentText_toList, List.cons_append, List.length_cons]
      by_cases he : e < 0
      · simp [exponentSize, he, hdigits, WrittenDecimal.exponentDigits_ne_nil]
        omega
      · simp [exponentSize, he, hdigits, WrittenDecimal.exponentDigits_ne_nil]
        omega

/-- The size of the whole part: a leading zero stands alone. -/
private theorem wholeSize_append {whole rest : List Char} (hdigits : ∀ c ∈ whole, c.isDigit = true)
    (hne : whole ≠ []) (hhead : whole = ['0'] ∨ whole.head? ≠ some '0')
    (hrest : ∀ c ∈ rest.head?, c.isDigit = false) :
    (if (whole ++ rest).head? = some '0' then 1
      else ((whole ++ rest).takeWhile Char.isDigit).length) = whole.length := by
  rw [List.head?_append_of_ne_nil _ hne]
  rcases hhead with rfl | hhead
  · rfl
  · rw [if_neg hhead, Text.takeWhile_isDigit_append hdigits hrest]

private theorem head?_ne_minus {cs : List Char} (hdigits : ∀ c ∈ cs, c.isDigit = true)
    (rest : List Char) (hne : cs ≠ []) : (cs ++ rest).head? ≠ some '-' := by
  obtain ⟨c, tail, rfl⟩ := List.exists_cons_of_ne_nil hne
  have hc := hdigits c (by simp)
  intro h
  have : c = '-' := by simpa using h
  rw [this] at hc
  exact absurd hc (by decide)

/-- A number behind its sign. -/
def signed (negative : Bool) (cs : List Char) : List Char :=
  (if negative then ['-'] else []) ++ cs

private theorem head?_signed (negative : Bool) {cs : List Char} (hcs : cs.head? ≠ some '-') :
    ((signed negative cs).head? = some '-') = (negative = true) := by
  cases negative <;> simp [signed, hcs]

private theorem drop_signed (negative : Bool) (cs : List Char) :
    (if negative = true then (signed negative cs).drop 1 else signed negative cs) = cs := by
  cases negative <;> rfl

/-- A written decimal is read as the number nearest to its value. -/
theorem readNumber_chars (negative : Bool) {w : WrittenDecimal} (hw : w.IsProper)
    (hfloat : w.fraction ≠ [] ∨ w.exponent.isSome) {rest : List Char}
    (hrest : Text.EndsNumber rest) :
    readNumber (signed negative (w.chars ++ rest)) =
      .ok (.float (w.decimal.toBinary negative), rest) := by
  have hbody : w.chars ++ rest = w.whole ++ (w.fractionChars ++ (w.exponentChars ++ rest)) := by
    simp [WrittenDecimal.chars, List.append_assoc]
  have hnext : ∀ c ∈ (w.fractionChars ++ (w.exponentChars ++ rest)).head?, c.isDigit = false := by
    intro c hc
    rw [← List.append_assoc] at hc
    cases htail : w.fractionChars ++ w.exponentChars with
    | nil =>
        rw [htail, List.nil_append] at hc
        exact (hrest c hc).1
    | cons d tail => exact w.not_isDigit_tail_head c (by simpa [htail] using hc)
  have hwhole := wholeSize_append hw.whole_digits hw.whole_ne_nil hw.whole_head hnext
  have hfraction := fractionSize_append hw hrest
  have hexponent := exponentSize_append w hrest
  have hminus : (w.chars ++ rest).head? ≠ some '-' := by
    rw [hbody]
    exact head?_ne_minus hw.whole_digits _ hw.whole_ne_nil
  have hhead := head?_signed negative hminus
  have hdropWhole : (w.chars ++ rest).drop w.whole.length =
      w.fractionChars ++ (w.exponentChars ++ rest) := by
    rw [hbody, List.drop_left]
  have hdropFraction : (w.chars ++ rest).drop (w.whole.length + w.fractionChars.length) =
      w.exponentChars ++ rest := by
    rw [← List.drop_drop, hdropWhole, List.drop_left]
  have hsize : w.whole.length + w.fractionChars.length + w.exponentChars.length =
      w.chars.length := by
    simp [WrittenDecimal.chars, Nat.add_assoc]
  have hnonzero : w.whole.length ≠ 0 ∧ w.fractionChars.length + w.exponentChars.length ≠ 0 := by
    refine ⟨fun h => hw.whole_ne_nil (List.length_eq_zero_iff.1 h), ?_⟩
    rcases hfloat with h | h
    · simp [WrittenDecimal.fractionChars, h]
    · obtain ⟨e, he⟩ := Option.isSome_iff_exists.1 h
      simp [WrittenDecimal.exponentChars, he, WrittenDecimal.exponentText_toList]
  rw [← hbody] at hwhole
  unfold readNumber
  simp only [hhead, drop_signed, hwhole, hdropWhole, hfraction, hdropFraction, hexponent,
    if_neg hnonzero.1, if_neg hnonzero.2, hsize, List.take_left, List.drop_left,
    WrittenDecimal.decimal?_chars hw, Bool.decide_eq_true]

private theorem fractionSize_eq_zero {rest : List Char} (hrest : Text.EndsNumber rest) :
    fractionSize rest = 0 := by
  unfold fractionSize
  split
  · exact absurd rfl (hrest '.' (by simp)).2.1
  · rfl

private theorem exponentSize_eq_zero {rest : List Char} (hrest : Text.EndsNumber rest) :
    exponentSize rest = 0 := by
  cases rest with
  | nil => rfl
  | cons c rest =>
      obtain ⟨-, -, he, hE⟩ := hrest c (by simp)
      simp [exponentSize, he, hE]

/-- The digits of an integer that can be written are read as that integer. -/
theorem readNumber_toDigits (negative : Bool) {n : Nat} (hn : n < Nat.pow 10 maxIntegerDigits)
    {rest : List Char} (hrest : Text.EndsNumber rest) :
    readNumber (signed negative (Nat.toDigits 10 n ++ rest)) =
      .ok (.int (if negative then -n else n), rest) := by
  have hdigits : ∀ c ∈ Nat.toDigits 10 n, c.isDigit = true :=
    fun c hc => Nat.isDigit_of_mem_toDigits (by decide) (by decide) hc
  have hzero : Nat.toDigits 10 n = ['0'] ∨ (Nat.toDigits 10 n).head? ≠ some '0' := by
    by_cases h : n = 0
    · exact .inl (by rw [h, Nat.toDigits_zero])
    · exact .inr (Text.head?_toDigits_ne_zero h)
  have hnext : ∀ c ∈ rest.head?, c.isDigit = false := fun c hc => (hrest c hc).1
  have hwhole := wholeSize_append hdigits Nat.toDigits_ne_nil hzero hnext
  have hhead := head?_signed negative (head?_ne_minus hdigits rest Nat.toDigits_ne_nil)
  have hlength : ¬ maxIntegerDigits < (Nat.toDigits 10 n).length :=
    not_lt.2 ((Nat.length_toDigits_le_iff (by decide) (by decide)).2 hn)
  have hpos : (Nat.toDigits 10 n).length ≠ 0 :=
    fun h => Nat.toDigits_ne_nil (List.length_eq_zero_iff.1 h)
  unfold readNumber
  simp only [hhead, drop_signed, hwhole, if_neg hpos, List.drop_left, Nat.add_zero,
    fractionSize_eq_zero hrest, exponentSize_eq_zero hrest, List.take_left, if_true,
    Text.boundedDigits, if_neg hlength, Text.digitsValue_toDigits]

/-- The text of an integer, if it has one, is its digits behind its sign. -/
theorem toList_integerText {n : Int} {s : String} (h : integerText n = .ok s) :
    n.natAbs < Nat.pow 10 maxIntegerDigits ∧
      s.toList = signed (decide (n < 0)) (Nat.toDigits 10 n.natAbs) := by
  unfold integerText integerText? at h
  by_cases hn : n.natAbs < Nat.pow 10 maxIntegerDigits
  · rw [if_pos hn] at h
    injection h with h
    refine ⟨hn, ?_⟩
    rw [← h, Int.toString_eq_repr, Int.repr_eq_if]
    by_cases hneg : n < 0
    · rw [if_neg (by omega), String.toList_append, Nat.toList_repr]
      have : (-n).toNat = n.natAbs := by omega
      simp [signed, hneg, this]
    · rw [if_pos (by omega), Nat.toList_repr]
      have : n.toNat = n.natAbs := by omega
      simp [signed, hneg, this]
  · rw [if_neg hn] at h
    injection h

end Json

end FormDesigner
