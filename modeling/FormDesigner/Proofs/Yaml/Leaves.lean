import FormDesigner.Proofs.Json.Scalar
import FormDesigner.Proofs.Result
import FormDesigner.Proofs.Value.Domain
import FormDesigner.Proofs.Yaml.Layout
import FormDesigner.Yaml.Reader

/-!
# Scalars are read as what they were written from

Null, truth values and numbers are written plainly, and a plain text of their form has their tag. A
text that would have the tag of something else is written between quotes. Numbers are read without
the underscores that they may have and in small letters; what is written of a number has neither.
-/

namespace FormDesigner

namespace Binary64

theorem neg_ofPair (m : Nat) (e : Int) : (ofPair false m e).neg = ofPair true m e := by
  unfold ofPair
  split <;> rfl

theorem neg_ofRatio (r : Ratio) : (ofRatio false r).neg = ofRatio true r := by
  unfold ofRatio
  dsimp only
  split
  · rfl
  · split
    · exact neg_ofPair _ _
    · exact neg_ofPair _ _

/-- Numbers are rounded alike on either side of zero. -/
theorem neg_ofDecimal (m : Nat) (e : Int) : (ofDecimal false m e).neg = ofDecimal true m e := by
  unfold ofDecimal
  split
  · rfl
  · split
    · rfl
    · exact neg_ofRatio _

end Binary64

namespace WrittenDecimal

variable {w : WrittenDecimal}

theorem exponentChars_of_some {e : Int} (h : w.exponent = some e) :
    w.exponentChars = 'e' :: (if e < 0 then '-' else '+') :: exponentDigits e := by
  simp only [exponentChars, h, exponentText_toList]

/-- A zero after the point changes nothing. -/
theorem toBinary_pointed (h : w.fraction = []) (negative : Bool) :
    ({ w with fraction := ['0'] } : WrittenDecimal).decimal.toBinary negative =
      w.decimal.toBinary negative := by
  refine Decimal.toBinary_congr ?_ negative
  have hexponent : w.exponent.getD 0 = w.exponent.getD 0 - 1 + 1 := by omega
  simp only [decimal, Decimal.value, h, List.append_nil, Text.digitsValue_append, List.length_nil,
    List.length_singleton, Nat.cast_zero, Nat.cast_one, sub_zero]
  rw [hexponent, zpow_add_one₀ (by norm_num)]
  simp [Text.digitsValue]
  ring

end WrittenDecimal

namespace Text

theorem dropUnderscores?_of_not_mem {cs : List Char} (h : '_' ∉ cs) {previous : Char}
    (hprevious : previous ≠ '_') : dropUnderscores? previous cs = some cs := by
  induction cs generalizing previous with
  | nil => simp [dropUnderscores?, hprevious]
  | cons c cs ih =>
      obtain ⟨hc, hcs⟩ := not_or.1 (mt List.mem_cons.2 h)
      simp [dropUnderscores?, Ne.symm hc, hprevious, ih hcs (Ne.symm hc)]

end Text

namespace Yaml

/-! ### The characters of numbers -/

/-- What numbers are written with. -/
def numerics : List Char := "0123456789.e+-".toList

theorem mem_numerics_of_isDigit {c : Char} (h : c.isDigit = true) : c ∈ numerics := by
  simp only [Char.isDigit, Bool.and_eq_true, decide_eq_true_eq, UInt32.le_iff_toNat_le,
    ge_iff_le] at h
  have hlow : 48 ≤ c.toNat := h.1
  have hhigh : c.toNat ≤ 57 := h.2
  rw [← Char.ofNat_toNat c]
  generalize c.toNat = n at hlow hhigh
  interval_cases n <;> decide

theorem numerics_quiet : ∀ c ∈ numerics, isQuiet c = true := by decide

theorem numerics_lower : ∀ c ∈ numerics, Text.lowerChar c = c ∧ c.toLower = c := by decide

theorem numerics_kept : ∀ c ∈ numerics, Text.isMargin c = false ∧ Text.asciiDigit c = c := by decide

variable {cs : List Char}

/-- Nothing stands around the characters of a number. -/
theorem numberText_of_numeric (h : ∀ c ∈ cs, c ∈ numerics) :
    Text.numberText (String.ofList cs) = cs := by
  have hmargin : ∀ {ds : List Char}, (∀ c ∈ ds, c ∈ numerics) →
      ds.dropWhile Text.isMargin = ds := by
    intro ds hds
    cases ds with
    | nil => rfl
    | cons d ds => simp [(numerics_kept d (hds d (.head _))).1]
  rw [Text.numberText, String.toList_ofList, hmargin h,
    hmargin fun c hc => h c (List.mem_reverse.1 hc), List.reverse_reverse]
  exact (List.map_congr_left fun c hc => (numerics_kept c (h c hc)).2).trans (List.map_id' cs)

theorem not_mem_of_numeric (h : ∀ c ∈ cs, c ∈ numerics) {d : Char} (hd : d ∉ numerics) : d ∉ cs :=
  fun hmem => hd (h d hmem)

theorem pieces_of_not_mem {d : Char} (h : d ∉ cs) : pieces d cs = [cs] := by
  induction cs with
  | nil => rfl
  | cons c cs ih =>
      obtain ⟨hc, hcs⟩ := not_or.1 (mt List.mem_cons.2 h)
      simp [pieces, Ne.symm hc, ih hcs]

/-! ### The texts of numbers -/

/-- A text is that of a number: a sign, a digit, and more of what numbers are written with. -/
structure IsNumeral (s : String) (negative : Bool) (body : List Char) : Prop where
  text : s.toList = Json.signed negative body
  start : ∃ d ∈ body.head?, d.isDigit = true
  chars : ∀ c ∈ body, c ∈ numerics

namespace IsNumeral

variable {s : String} {negative : Bool} {body : List Char}

theorem exists_cons (h : IsNumeral s negative body) :
    ∃ d ds, body = d :: ds ∧ d.isDigit = true := by
  obtain ⟨d, hd, hdigit⟩ := h.start
  cases body with
  | nil => cases hd
  | cons e ds =>
      obtain rfl := Option.some.inj hd
      exact ⟨e, ds, rfl, hdigit⟩

theorem mem (h : IsNumeral s negative body) : ∀ c ∈ s.toList, c ∈ numerics := by
  rw [h.text, Json.signed]
  refine List.forall_mem_append.2 ⟨?_, h.chars⟩
  cases negative
  · exact List.forall_mem_nil _
  · exact List.forall_mem_singleton.2 (by decide)

theorem isCalm (h : IsNumeral s negative body) : IsCalm s.toList := by
  refine ⟨fun c hc => numerics_quiet c (h.mem c hc), ?_⟩
  obtain ⟨d, ds, hbody, hd⟩ := h.exists_cons
  have halpha : d.isAlphanum = true := by simp [Char.isAlphanum, hd]
  rw [h.text, hbody]
  cases negative with
  | false => exact ⟨d, ds, rfl, .inl halpha⟩
  | true => exact ⟨'-', d :: ds, rfl, .inr ⟨rfl, d, rfl, halpha⟩⟩

/-- Words do not begin with a digit or a sign. -/
theorem ne_word (h : IsNumeral s negative body) {t : String}
    (ht : ∀ c ∈ t.toList.head?, c.isDigit = false ∧ c ≠ '-') : s ≠ t := by
  rintro rfl
  obtain ⟨d, ds, rfl, hd⟩ := h.exists_cons
  rw [h.text] at ht
  cases negative with
  | false => simp [(ht d rfl).1] at hd
  | true => exact (ht '-' rfl).2 rfl

theorem ne_empty (h : IsNumeral s negative body) : s ≠ "" := h.ne_word (by decide)

theorem isNullText (h : IsNumeral s negative body) : isNullText s = false := by
  have hwords : ∀ t ∈ ["", "~", "null", "Null", "NULL"],
      ∀ c ∈ t.toList.head?, c.isDigit = false ∧ c ≠ '-' := by decide
  rw [Yaml.isNullText, List.contains_eq_mem, decide_eq_false_iff_not]
  exact fun hmem => h.ne_word (hwords s hmem) rfl

theorem isTruthText (h : IsNumeral s negative body) : isTruthText s = false := by
  have hwords : ∀ e ∈ truthTexts, ∀ t ∈ [e.1, e.1.capitalize, e.1.toUpper],
      ∀ c ∈ t.toList.head?, c.isDigit = false ∧ c ≠ '-' := by decide +kernel
  rw [Yaml.isTruthText, List.any_eq_false]
  intro e he
  have hne : ∀ t ∈ [e.1, e.1.capitalize, e.1.toUpper], s ≠ t := fun t ht =>
    h.ne_word (hwords e he t ht)
  simpa [and_assoc] using hne

theorem dropLastBreak (h : IsNumeral s negative body) : dropLastBreak s.toList = s.toList := by
  rw [Yaml.dropLastBreak, if_neg]
  rw [beq_iff_eq]
  exact fun hlast => not_mem_of_numeric h.mem (by decide) (List.mem_of_getLast? hlast)

/-- A body is what follows the sign of a number, and has none itself. -/
theorem splitSign_body (h : IsNumeral s negative body) : Text.splitSign body = (false, body) := by
  obtain ⟨d, ds, rfl, hd⟩ := h.exists_cons
  unfold Text.splitSign
  split
  · next heq =>
      obtain rfl := (List.cons.inj heq).1
      cases hd
  · next heq =>
      obtain rfl := (List.cons.inj heq).1
      cases hd
  · rfl

theorem splitSign (h : IsNumeral s negative body) :
    Text.splitSign s.toList = (negative, body) := by
  rw [h.text]
  cases negative with
  | false => exact h.splitSign_body
  | true => rfl

theorem dropSign (h : IsNumeral s negative body) : dropSign s.toList = body := by
  have hsplit : ∀ cs, Yaml.dropSign cs = (Text.splitSign cs).2 := by
    intro cs
    unfold Yaml.dropSign Text.splitSign
    split
    · rfl
    · rfl
    · next hplus hminus =>
        split
        · exact absurd rfl (hminus _)
        · exact absurd rfl (hplus _)
        · rfl
  rw [hsplit, h.splitSign]

theorem plainTag_float (h : IsNumeral s negative body) (hfloat : isFloat s.toList = true)
    (times : Bool) : plainTag times s = .float := by
  simp [plainTag, h.dropLastBreak, h.isNullText, h.isTruthText, hfloat]

theorem plainTag_int (h : IsNumeral s negative body) (hfloat : isFloat s.toList = false)
    (hint : isInteger s.toList = true) (times : Bool) : plainTag times s = .int := by
  simp [plainTag, h.dropLastBreak, h.isNullText, h.isTruthText, hfloat, hint]

theorem withoutLines (h : IsNumeral s negative body) : withoutLines s.toList = s.toList := by
  rw [Yaml.withoutLines, List.filter_eq_self]
  intro c hc
  have : c ≠ '_' := fun heq => not_mem_of_numeric h.mem (d := '_') (by decide) (heq ▸ hc)
  simpa using this

/-- The sign of the number and its text without it. -/
theorem signed (h : IsNumeral s negative body) : signed s.toList = .ok (negative, body) := by
  have hne : s.toList.isEmpty = false := by
    simpa [List.isEmpty_eq_false_iff] using h.ne_empty
  rw [Yaml.signed, hne, if_neg Bool.false_ne_true, h.splitSign]

theorem unsigned (h : IsNumeral s negative body) : IsNumeral (String.ofList body) false body :=
  ⟨String.toList_ofList, h.start, h.chars⟩

end IsNumeral

/-! ### Integers -/

theorem length_toDigits_of_integerText? {n : Int} {s : String} (h : integerText? n = some s) :
    (Nat.toDigits 10 n.natAbs).length ≤ maxIntegerDigits := by
  have hpos : 0 < maxIntegerDigits := by decide
  unfold integerText? at h
  generalize maxIntegerDigits = limit at h hpos ⊢
  split at h
  · next hn => exact (Nat.length_toDigits_le_iff (by decide) hpos).2 hn
  · cases h

/-- The texts of integers. -/
theorem isNumeral_integerText {n : Int} {s : String} (h : integerText? n = some s) :
    IsNumeral s (decide (n < 0)) (Nat.toDigits 10 n.natAbs) := by
  have hdigits : ∀ c ∈ Nat.toDigits 10 n.natAbs, c.isDigit = true := fun c hc =>
    Nat.isDigit_of_mem_toDigits (by decide) (by decide) hc
  have hwritten : Json.integerText n = .ok s := by
    unfold Json.integerText
    generalize integerText? n = t at h
    rw [h]
  refine ⟨(Json.toList_integerText hwritten).2, ?_, fun c hc =>
    mem_numerics_of_isDigit (hdigits c hc)⟩
  cases hds : Nat.toDigits 10 n.natAbs with
  | nil => exact absurd hds Nat.toDigits_ne_nil
  | cons d ds => exact ⟨d, rfl, hdigits d (by simp [hds])⟩

section Digits

variable {s : String} {negative : Bool} {ds : List Char}

theorem isFloat_of_digits (h : IsNumeral s negative ds) (hds : ∀ c ∈ ds, c.isDigit = true) :
    isFloat s.toList = false := by
  have hdot : '.' ∉ ds := fun hmem => by cases hds '.' hmem
  have hpointed : isPointed ds = false := by
    have : ds.takeWhile isDigitOrLine = ds :=
      List.takeWhile_eq_self_iff.2 fun c hc => by simp [isDigitOrLine, hds c hc]
    simp [isPointed, this]
  have hsexagesimal : isSexagesimal ds = false := by simp [isSexagesimal, pieces_of_not_mem hdot]
  have hinfinite : infinities.contains (String.ofList ds) = false := by
    have hwords : ∀ t ∈ infinities, '.' ∈ t.toList := by decide
    rw [List.contains_eq_mem, decide_eq_false_iff_not]
    exact fun hmem => hdot (by simpa using hwords _ hmem)
  have hundefined : undefinedNumbers.contains (String.ofList s.toList) = false := by
    have hwords : ∀ t ∈ undefinedNumbers, ∀ c ∈ t.toList.head?, c.isDigit = false ∧ c ≠ '-' := by
      decide
    rw [String.ofList_toList, List.contains_eq_mem, decide_eq_false_iff_not]
    exact fun hmem => h.ne_word (hwords s hmem) rfl
  simp only [isFloat, h.dropSign, hpointed, hsexagesimal, hinfinite, hundefined, Bool.or_self,
    Bool.false_or]
  split
  · next rest heq =>
      refine absurd ?_ (h.ne_word (t := String.ofList ('.' :: rest)) (by simp))
      rw [← heq, String.ofList_toList]
  · rfl

/-- No digits of a base other than ten, if there is no zero in front. -/
theorem isInteger_of_digits (h : IsNumeral s negative ds) (hds : ∀ c ∈ ds, c.isDigit = true)
    (hzero : ds = ['0'] ∨ ds.head? ≠ some '0') : isInteger s.toList = true := by
  rw [isInteger, h.dropSign]
  obtain ⟨d, rest, rfl, hd⟩ := h.exists_cons
  have hcolon : ':' ∉ d :: rest := fun hmem => by cases hds ':' hmem
  rcases hzero with hzero | hzero
  · rw [hzero]
    rfl
  · have hne : d ≠ '0' := fun heq => hzero (congrArg some heq)
    have hrest : rest.all isDigitOrLine = true :=
      List.all_eq_true.2 fun c hc => by simp [isDigitOrLine, hds c (.tail _ hc)]
    split
    · rfl
    · next heq => exact absurd (List.cons.inj heq).1 hne
    · next heq => exact absurd (List.cons.inj heq).1 hne
    · next heq => exact absurd (List.cons.inj heq).1 hne
    · simp [pieces_of_not_mem hcolon, isDigits, hd, hrest, startsNonzero, hne]

theorem readInteger_of_digits (h : IsNumeral s negative ds) (hds : ∀ c ∈ ds, c.isDigit = true)
    (hsize : ds.length ≤ maxIntegerDigits) :
    Text.readInteger (String.ofList ds) = .ok (Text.digitsValue ds) := by
  have hne : ds.isEmpty = false := by
    obtain ⟨d, rest, rfl, -⟩ := h.exists_cons
    rfl
  rw [Text.readInteger, numberText_of_numeric h.chars, h.splitSign_body]
  simp only [Text.dropUnderscores?_of_not_mem (not_mem_of_numeric h.chars (d := '_') (by decide))
    (by decide : '\x00' ≠ '_'), hne, List.all_eq_true.2 hds, Bool.not_true, Bool.or_self,
    Bool.false_eq_true, if_false]
  rw [Text.boundedDigits, if_neg (Nat.not_lt.2 hsize)]
  rfl

theorem integer_of_digits (h : IsNumeral s negative ds) (hds : ∀ c ∈ ds, c.isDigit = true)
    (hzero : ds = ['0'] ∨ ds.head? ≠ some '0') (hsize : ds.length ≤ maxIntegerDigits) :
    integer s = .ok (if negative then -(Text.digitsValue ds : Int) else Text.digitsValue ds) := by
  have hcolon : ds.contains ':' = false := by
    rw [List.contains_eq_mem, decide_eq_false_iff_not]
    exact fun hmem => by cases hds ':' hmem
  have hread : decimalInteger ds = .ok (Text.digitsValue ds : Int) := by
    simp only [decimalInteger, readInteger_of_digits h hds hsize]
  rw [integer, h.withoutLines, h.signed, Result.ok_bind]
  obtain ⟨d, rest, rfl, hd⟩ := h.exists_cons
  dsimp only
  rcases hzero with hzero | hzero
  · rw [hzero]
    rfl
  · have hne : d ≠ '0' := fun heq => hzero (congrArg some heq)
    split
    · next heq => exact absurd (List.cons.inj heq).1 hne
    · next heq => exact absurd (List.cons.inj heq).1 hne
    · next heq => exact absurd (List.cons.inj heq).1 hne
    · next heq => exact absurd (List.cons.inj heq).1 hne
    · next heq => cases heq
    · rw [hcolon, if_neg Bool.false_ne_true, hread]
      rfl

end Digits

/-! ### Floating-point numbers -/

/-- The text of a finite number has a point. -/
theorem floatLeafText_eq_chars (negative : Bool) {m : Nat} {e : Int}
    (canonical : CanonicalPair m e) :
    ∃ w : WrittenDecimal, w.IsProper ∧ w.fraction ≠ [] ∧
      (floatLeafText (.finite negative m e canonical)).toList = Json.signed negative w.chars ∧
      w.decimal.toBinary negative = .finite negative m e canonical := by
  obtain ⟨w, hw, hfloat, hchars, hvalue⟩ := Binary64.text_eq_chars negative canonical
  change _ = Json.signed negative w.chars at hchars
  simp only [floatLeafText, hchars]
  by_cases hfraction : w.fraction = []
  · obtain ⟨k, hk⟩ := Option.isSome_iff_exists.1 (hfloat.resolve_left fun h => h hfraction)
    have hexponent := WrittenDecimal.exponentChars_of_some hk
    have hsplit :
        Json.signed negative w.chars = Json.signed negative w.whole ++ w.exponentChars := by
      simp [Json.signed, WrittenDecimal.chars, WrittenDecimal.fractionChars, hfraction]
    have hne : ∀ d : Char, d.isDigit = false → d ≠ '-' → d ∉ Json.signed negative w.whole := by
      intro d hd hminus hmem
      rcases List.mem_append.1 hmem with hmem | hmem
      · cases negative with
        | false => cases hmem
        | true => exact hminus (List.mem_singleton.1 hmem)
      · simp [hw.whole_digits d hmem] at hd
    have hpoint : (Json.signed negative w.chars).contains '.' = false := by
      have hdigits : '.' ∉ WrittenDecimal.exponentDigits k := fun hmem => by
        cases WrittenDecimal.exponentDigits_isDigit k '.' hmem
      rw [List.contains_eq_mem, decide_eq_false_iff_not, hsplit, hexponent]
      split <;> simp [hne '.' rfl (by decide), hdigits]
    have hmark : (Json.signed negative w.chars).contains 'e' = true := by
      simp [hsplit, hexponent]
    have hall : ∀ c ∈ Json.signed negative w.whole, (c != 'e') = true := fun c hc => by
      rw [bne_iff_ne]
      rintro rfl
      exact hne 'e' rfl (by decide) hc
    have htake : w.exponentChars.takeWhile (· != 'e') = [] := by rw [hexponent]; rfl
    have hdrop : w.exponentChars.dropWhile (· != 'e') = w.exponentChars := by rw [hexponent]; rfl
    refine ⟨{ w with fraction := ['0'] },
      ⟨hw.whole_digits, List.forall_mem_singleton.2 rfl, hw.whole_ne_nil, hw.whole_head⟩, by simp,
      ?_, (WrittenDecimal.toBinary_pointed hfraction negative).trans hvalue⟩
    simp only [hpoint, hmark, Bool.not_true, Bool.or_self, Bool.false_eq_true, if_false,
      String.toList_ofList]
    rw [hsplit, List.takeWhile_append_of_pos hall, List.dropWhile_append_of_pos hall, htake, hdrop]
    simp [Json.signed, WrittenDecimal.chars, WrittenDecimal.fractionChars]
    rfl
  · refine ⟨w, hw, hfraction, ?_, hvalue⟩
    have hpoint : (Json.signed negative w.chars).contains '.' = true := by
      simp [Json.signed, WrittenDecimal.chars, WrittenDecimal.fractionChars, hfraction]
    simp only [hpoint, Bool.true_or, if_true]
    exact hchars

section Pointed

variable {s : String} {negative : Bool} {w : WrittenDecimal}

theorem isNumeral_chars (hw : w.IsProper) (h : s.toList = Json.signed negative w.chars) :
    IsNumeral s negative w.chars := by
  refine ⟨h, ?_, ?_⟩
  · obtain ⟨d, ds, hds⟩ := List.exists_cons_of_ne_nil hw.whole_ne_nil
    exact ⟨d, by simp [WrittenDecimal.chars, hds], hw.whole_digits d (by simp [hds])⟩
  · have hfraction : ∀ c ∈ w.fractionChars, c ∈ numerics := by
      unfold WrittenDecimal.fractionChars
      split
      · exact List.forall_mem_nil _
      · exact List.forall_mem_cons.2
          ⟨by decide, fun c hc => mem_numerics_of_isDigit (hw.fraction_digits c hc)⟩
    have hexponent : ∀ c ∈ w.exponentChars, c ∈ numerics := by
      cases he : w.exponent with
      | none => simp [WrittenDecimal.exponentChars, he]
      | some e =>
          rw [WrittenDecimal.exponentChars_of_some he]
          refine List.forall_mem_cons.2 ⟨by decide, List.forall_mem_cons.2 ⟨?_, fun c hc =>
            mem_numerics_of_isDigit (WrittenDecimal.exponentDigits_isDigit e c hc)⟩⟩
          split <;> decide
    exact List.forall_mem_append.2 ⟨List.forall_mem_append.2
      ⟨fun c hc => mem_numerics_of_isDigit (hw.whole_digits c hc), hfraction⟩, hexponent⟩

theorem isFloat_of_chars (hw : w.IsProper) (hfraction : w.fraction ≠ [])
    (h : IsNumeral s negative w.chars) : isFloat s.toList = true := by
  have hline : ∀ {cs : List Char}, (∀ c ∈ cs, c.isDigit = true) →
      ∀ c ∈ cs, isDigitOrLine c = true :=
    fun h c hc => by simp [isDigitOrLine, h c hc]
  have hchars : w.chars = w.whole ++ '.' :: (w.fraction ++ w.exponentChars) := by
    simp [WrittenDecimal.chars, WrittenDecimal.fractionChars, hfraction]
  have hwhole : w.chars.takeWhile isDigitOrLine = w.whole := by
    rw [hchars, List.takeWhile_append_of_pos (hline hw.whole_digits)]
    simp [isDigitOrLine]
  have hdigits : isDigits w.whole = true := by
    obtain ⟨d, ds, hds⟩ := List.exists_cons_of_ne_nil hw.whole_ne_nil
    have := hw.whole_digits
    rw [hds] at this ⊢
    obtain ⟨hd, hrest⟩ := List.forall_mem_cons.1 this
    simpa [isDigits, hd] using hline hrest
  have hexponent : isExponent ((w.fraction ++ w.exponentChars).dropWhile isDigitOrLine) = true := by
    rw [List.dropWhile_append_of_pos (hline hw.fraction_digits)]
    cases he : w.exponent with
    | none => simp [WrittenDecimal.exponentChars, he, isExponent]
    | some e =>
        have hsign : isDigitOrLine 'e' = false := rfl
        rw [WrittenDecimal.exponentChars_of_some he, List.dropWhile_cons_of_neg (by simp [hsign])]
        have hds := WrittenDecimal.exponentDigits_isDigit e
        have hne := WrittenDecimal.exponentDigits_ne_nil e
        split <;> simpa [isExponent, hne] using hds
  have hdrop : w.chars.drop w.whole.length = '.' :: (w.fraction ++ w.exponentChars) := by
    rw [hchars, List.drop_left]
  have hpointed : isPointed w.chars = true := by
    simp only [isPointed, hwhole, hdrop, hdigits, hexponent, Bool.and_self]
  simp [isFloat, h.dropSign, hpointed]

/-- What is written of a decimal behind its sign is read as the number nearest to its value. -/
theorem readFloat?_of_chars (hw : w.IsProper) (h : IsNumeral s negative w.chars) :
    Text.readFloat? s = some (w.decimal.toBinary negative) := by
  have hnumber : Text.numberText s = s.toList := by
    rw [← numberText_of_numeric h.mem, String.ofList_toList]
  have hlower : w.chars.map Char.toLower = w.chars :=
    (List.map_congr_left fun c hc => (numerics_lower c (h.chars c hc)).2).trans (List.map_id' _)
  have hdrop := Text.dropUnderscores?_of_not_mem
    (not_mem_of_numeric h.mem (d := '_') (by decide)) (by decide : '\x00' ≠ '_')
  have hinf := h.unsigned.ne_word (t := "inf") (by decide)
  have hinfinity := h.unsigned.ne_word (t := "infinity") (by decide)
  have hnan := h.unsigned.ne_word (t := "nan") (by decide)
  simp [Text.readFloat?, hnumber, hdrop, h.splitSign, hlower, hinf, hinfinity, hnan,
    WrittenDecimal.decimal?_chars hw]

theorem float_of_chars (hw : w.IsProper) (h : IsNumeral s negative w.chars) :
    float s = .ok (.float (w.decimal.toBinary negative)) := by
  have hlower : s.toList.map Text.lowerChar = s.toList :=
    (List.map_congr_left fun c hc => (numerics_lower c (h.mem c hc)).1).trans (List.map_id' _)
  have hinf := h.unsigned.ne_word (t := ".inf") (by decide)
  have hnan := h.unsigned.ne_word (t := ".nan") (by decide)
  have hcolon : w.chars.contains ':' = false := by
    rw [List.contains_eq_mem, decide_eq_false_iff_not]
    exact not_mem_of_numeric h.chars (by decide)
  have hread : floatText w.chars = .ok (w.decimal.toBinary false) := by
    simp only [floatText, readFloat?_of_chars hw h.unsigned]
  rw [float, h.withoutLines, hlower, h.signed, Result.ok_bind]
  simp only [hinf, hnan, hcolon, if_false, Bool.false_eq_true, hread]
  cases negative with
  | false => rfl
  | true => exact congrArg (fun x => Except.ok (Value.float x)) (Binary64.neg_ofDecimal _ _)

end Pointed

/-! ### Leaves -/

/-- Only times have another tag where times are told from texts. -/
theorem plainTag_without_times {s : String} (h : plainTag true s ≠ .timestamp) :
    plainTag false s = plainTag true s := by
  unfold plainTag at h ⊢
  dsimp only at h ⊢
  split_ifs at h ⊢ <;> first | rfl | simp_all

namespace Leaf

/-- The node that is read for a leaf. -/
def node (l : Leaf) : Node :=
  .scalar (if l.quotes = .plain then plainTag false l.text else .text) l.text

/-- A leaf is written so that the value is read again. -/
structure ReadsAs (l : Leaf) (v : Value) : Prop where
  simple : l.IsSimple
  value : construct l.node = .ok v
  text : l.tag = .text → v = .text l.text
  calm : l.tag ≠ .text → l.readsBack = true ∧ IsCalm l.text.toList

variable {tag : Tag} {s : String} {v : Value}

/-- Calm texts are plain. -/
theorem quotesIn_of_isCalm {l : Leaf} (hblock : l.block = false) (hreads : l.readsBack = true)
    (hcalm : IsCalm l.text.toList) (unicode inFlow : Bool) :
    l.quotesIn unicode inFlow = .plain := by
  rw [quotesIn_of_not_block hblock, if_pos ⟨hreads, hcalm.plainIn unicode inFlow⟩]

/-- A calm text that has the tag of its leaf. -/
theorem readsAs_of_isCalm (hcalm : IsCalm s.toList) (htag : ∀ times, plainTag times s = tag)
    (htext : tag ≠ .text) (hvalue : construct (.scalar tag s) = .ok v) :
    (Leaf.mk tag s false).ReadsAs v := by
  have hreads : (Leaf.mk tag s false).readsBack = true := by simp [readsBack, htag true]
  have hquotes : (Leaf.mk tag s false).quotes = .plain :=
    quotesIn_of_isCalm rfl hreads hcalm true false
  have hne : s ≠ "" := fun h => hcalm.ne_nil (h ▸ rfl)
  refine ⟨⟨rfl, fun h => absurd hquotes h, fun _ => hne⟩, ?_, fun h => absurd h htext,
    fun _ => ⟨hreads, hcalm⟩⟩
  rw [node, hquotes, if_pos rfl, htag false]
  exact hvalue

/-- A text that would be read as something else is quoted. -/
theorem node_text (s : String) : (Leaf.mk .text s false).node = .scalar .text s := by
  rw [node]
  split
  · next h =>
      have hplain : plainTag true s = .text := by
        rw [quotes, ← quotesIn, quotesIn_of_not_block rfl] at h
        split at h
        · next hplain => simpa [readsBack] using hplain.1
        · split at h <;> cases h
      rw [plainTag_without_times (by rw [hplain]; decide), hplain]
  · rfl

theorem readsAs_text (s : String) : (Leaf.mk .text s false).ReadsAs (.text s) := by
  refine ⟨⟨rfl, fun _ => rfl, fun h hs => ?_⟩, by rw [node_text, construct], fun _ => rfl,
    fun h => absurd rfl h⟩
  rw [show s = "" from hs] at h
  exact absurd h (by decide)

theorem readsAs_int {n : Int} (h : integerText? n = some s) :
    (Leaf.mk .int s false).ReadsAs (.int n) := by
  have hnumeral := isNumeral_integerText h
  have hdigits : ∀ c ∈ Nat.toDigits 10 n.natAbs, c.isDigit = true := fun c hc =>
    Nat.isDigit_of_mem_toDigits (by decide) (by decide) hc
  have hzero : Nat.toDigits 10 n.natAbs = ['0'] ∨ (Nat.toDigits 10 n.natAbs).head? ≠ some '0' := by
    by_cases h : n.natAbs = 0
    · exact .inl (by rw [h, Nat.toDigits_zero])
    · exact .inr (Text.head?_toDigits_ne_zero h)
  have hsize := length_toDigits_of_integerText? h
  refine readsAs_of_isCalm hnumeral.isCalm (hnumeral.plainTag_int
    (isFloat_of_digits hnumeral hdigits) (isInteger_of_digits hnumeral hdigits hzero)) nofun ?_
  rw [construct, integer_of_digits hnumeral hdigits hzero hsize, Text.digitsValue_toDigits]
  refine congrArg (fun n => Except.ok (Value.int n)) ?_
  simp only [decide_eq_true_eq]
  split <;> omega

theorem readsAs_float {x : Binary64} (h : x.isFinite = true) :
    (Leaf.mk .float (floatLeafText x) false).ReadsAs (.float x) := by
  cases x with
  | nan | infinite => cases h
  | finite negative m e canonical =>
      obtain ⟨w, hw, hfraction, hchars, hvalue⟩ := floatLeafText_eq_chars negative canonical
      have hnumeral := isNumeral_chars hw hchars
      refine readsAs_of_isCalm hnumeral.isCalm
        (hnumeral.plainTag_float (isFloat_of_chars hw hfraction hnumeral)) nofun ?_
      rw [construct, float_of_chars hw hnumeral, hvalue]

/-- Words of letters are plain. -/
theorem readsAs_word (hletters : ∀ c ∈ s.toList, c.isAlpha = true) (hne : s ≠ "")
    (htag : ∀ times, plainTag times s = tag) (htext : tag ≠ .text)
    (hvalue : construct (.scalar tag s) = .ok v) : (Leaf.mk tag s false).ReadsAs v :=
  readsAs_of_isCalm (isCalm_of_letters (fun hnil => hne (String.toList_eq_nil_iff.1 hnil)) hletters)
    htag htext hvalue

end Leaf

theorem leaf?_int {n : Int} {s : String} (h : integerText? n = some s) :
    leaf? (.int n) = .ok (some ⟨.int, s, false⟩) := by
  unfold leaf?
  dsimp only
  generalize integerText? n = t at h
  rw [h]

/-- A scalar of JSON is written as a leaf that is read as this scalar again. -/
theorem exists_leaf {v : Value} (hv : Value.IsJsonScalar v) :
    ∃ l, leaf? v = .ok (some l) ∧ l.ReadsAs v := by
  cases v with
  | null =>
      exact ⟨_, rfl,
        Leaf.readsAs_word (by decide) (by decide) (by decide) (by simp) (by rw [construct])⟩
  | bool b =>
      refine ⟨_, rfl, ?_⟩
      cases b
      · have htruth : truthTexts.lookup (Text.lower "false") = some false := by decide +kernel
        exact Leaf.readsAs_word (by decide) (by decide) (by decide +kernel) (by simp)
          (by simp [construct, truth, htruth])
      · have htruth : truthTexts.lookup (Text.lower "true") = some true := by decide +kernel
        exact Leaf.readsAs_word (by decide) (by decide) (by decide +kernel) (by simp)
          (by simp [construct, truth, htruth])
  | int n =>
      have hsome : (integerText? n).isSome = true := hv
      obtain ⟨s, hs⟩ := Option.isSome_iff_exists.1 hsome
      exact ⟨_, leaf?_int hs, Leaf.readsAs_int hs⟩
  | float x => exact ⟨_, rfl, Leaf.readsAs_float hv⟩
  | text s => exact ⟨_, rfl, Leaf.readsAs_text s⟩
  | _ => cases hv

end Yaml

end FormDesigner
