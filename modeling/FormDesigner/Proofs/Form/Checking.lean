import FormDesigner.Proofs.Expression.Evaluation
import FormDesigner.Proofs.Field.Rules
import FormDesigner.Proofs.Form.Report

/-!
# What stops the check of a form

A form with a valid schema gets a report whatever its values are, unless the check of a text stops.
It does where a value has no text, since there is an integer in it with too many digits to be
written out, and where the pattern of a field cannot be read for another reason than that it is
malformed: a count in it is too large or has too many digits, or it mixes alphabets. Every other
pattern is applied if it can be read, and ignored if it is malformed.
-/

namespace FormDesigner

namespace Form

open Expression (LimitSource)
open Result

variable {field v : Value} {values : Entries} {f : Failure}

/-! ### Texts -/

/-- The pattern of a field, if it has one. -/
def pattern? (field : Value) : Option String :=
  (field.rules.getOrNull "regex").asText?.filter fun s => !s.isEmpty

/-- Whether a text has what the pattern of a field describes. Without a pattern, every text has. -/
def fitsPattern (field : Value) (text : String) : Except Failure Bool :=
  match pattern? field with
  | none => .ok true
  | some pattern => matchesPattern pattern text

/-- What is wrong with the length of a text. -/
def lengthMessage (field : Value) (text : String) : Except Failure (Option String) :=
  checkBounds field (.int text.length)
    ("Must be at least ", " characters.") ("Must be at most ", " characters.")

/-- The reasons other than being malformed for which a pattern cannot be read, with the failure that
each of them ends the check with. -/
inductive StopsReading (pattern : String) : Failure → Prop
  | countTooLarge (fault : Pattern.read pattern = .error .countTooLarge) :
      StopsReading pattern (.fault .overflow "")
  | countTooLong {digits : Nat} (fault : Pattern.read pattern = .error (.countTooLong digits)) :
      StopsReading pattern (.integerDigitLimit digits)
  | mixedAlphabets (fault : Pattern.read pattern = .error .mixedAlphabets) :
      StopsReading pattern (.fault .value "ASCII and UNICODE flags are incompatible")

/-- What stops the check of a value as text: it has none, or the pattern that it should have cannot
be read. -/
inductive StopsText (field v : Value) : Failure → Prop
  | unwritable (overlong : v.HoldsOverlong) : StopsText field v .integerTextLimit
  | unreadable {pattern : String} {f : Failure} (written : ¬ v.HoldsOverlong)
      (present : pattern? field = some pattern) (unreadable : StopsReading pattern f) :
      StopsText field v f

theorem checkText_eq (h : field.Fits) (v : Value) : checkText field v = (do
    let text ← checkedText v
    if ← fitsPattern field text then lengthMessage field text else return some patternMessage) := by
  obtain ⟨rules, hrules, hget⟩ := rulesOf_of_fits h
  rw [checkText]
  refine bind_congr fun text => ?_
  have hcont : ∀ fits : Bool, (if !fits then return some patternMessage
      else checkBounds field (.int text.length) ("Must be at least ", " characters.")
        ("Must be at most ", " characters.") : Except Failure (Option String)) =
      if fits then lengthMessage field text else return some patternMessage := by
    intro fits
    cases fits <;> rfl
  rw [hrules, ok_bind, hget, fitsPattern, pattern?]
  simp only [hcont]
  cases hregex : field.rules.getOrNull "regex" with
  | text pattern =>
      dsimp only [Value.asText?]
      cases hempty : pattern.isEmpty with
      | true =>
          rw [Option.filter_some_neg (by simp [hempty])]
          rfl
      | false =>
          rw [Option.filter_some_pos (by simp [hempty])]
          rfl
  | _ => rfl

/-- Whether the type of a field asks for its value to be checked as text. A date must be readable
first. -/
def checksText (field v : Value) : Bool :=
  match Shape.typeOf? (field.getOrNull "type") with
  | some .text => true
  | some .select => true
  | some .radio => true
  | some .date => (checkDate v).isNone
  | _ => false

/-- Values that are not checked as text are checked without fail. -/
theorem checkByType_cases (h : field.Fits) (v : Value) :
    (checksText field v = true ∧ checkByType field v = checkText field v) ∨
      checksText field v = false ∧ ∃ m, checkByType field v = .ok m := by
  unfold checkByType checksText Shape.typeOf?
  cases (field.getOrNull "type").asText?.bind FieldType.ofName? with
  | none => exact .inr ⟨rfl, _, rfl⟩
  | some type =>
      cases type with
      | text | select | radio => exact .inl ⟨rfl, rfl⟩
      | number => exact .inr ⟨rfl, exists_checkNumber h v⟩
      | multiselect | array => exact .inr ⟨rfl, exists_checkCount h v _ _⟩
      | date =>
          cases checkDate v with
          | none => exact .inl ⟨rfl, rfl⟩
          | some m => exact .inr ⟨rfl, _, rfl⟩
      | _ => exact .inr ⟨rfl, _, rfl⟩

/-- With the standard limits it is always settled whether a field is shown. -/
theorem exists_isShown (h : field.Fits) (values : Entries) :
    ∃ b, isShown (.ok .standard) field values = .ok b := by
  rcases h.visibleWhen with hnull | ⟨source, hsource⟩
  · exact ⟨true, by rw [isShown, hnull]; rfl⟩
  · rw [isShown, hsource]
    refine (Expression.isAnswered_of_not_hasOverlongInteger fun digits hlong => ?_).shows values
    obtain ⟨hlow, hhigh⟩ := hlong.bounds
    have hlimit : Expression.Limits.standard.maxLength = 1000 := rfl
    have hdigits : maxIntegerDigits = 4300 := rfl
    omega

/-- The value of the field at a spot. -/
def Spot.value (s : Spot) : Value := (Entries.get? s.values (s.field.getOrNull "key")).getD .null

/-- The value at a spot is checked as text: the field is shown, its value is given by the user, and
its type asks for it. -/
structure Spot.ChecksText (s : Spot) : Prop where
  shown : isShown (.ok .standard) s.field s.values = .ok true
  given : Field.hasComputed s.field = false
  present : isMissing s.value = false
  type : checksText s.field s.value = true

/-- What stops the check at a spot. -/
def Spot.Stops (s : Spot) (f : Failure) : Prop := s.ChecksText ∧ StopsText s.field s.value f

variable {s : Spot}

theorem not_isSection_of_checksText (h : checksText field v = true) : field.isSection = false := by
  cases hsection : field.isSection with
  | false => rfl
  | true =>
      have htype : Shape.typeOf? (field.getOrNull "type") = some .section :=
        Shape.typeOf?_eq_some_iff.2 (Value.isSection_iff.1 hsection).2
      rw [checksText, htype] at h
      cases h

/-- Whatever is not checked as text at a spot gets a message or none. -/
theorem Spot.message?_cases (h : s.field.Fits) :
    (s.ChecksText ∧ s.message? (.ok .standard) = checkText s.field s.value) ∨
      ¬ s.ChecksText ∧ ∃ m, s.message? (.ok .standard) = .ok m := by
  obtain ⟨shown, hshown⟩ := exists_isShown h s.values
  rw [message?, fieldMessage?, demandMap_of_fits h, ok_bind, hshown, ok_bind]
  cases shown with
  | false =>
      refine .inr ⟨fun hchecks => ?_, none, rfl⟩
      cases hshown.symm.trans hchecks.shown
  | true =>
      rw [if_neg (by decide)]
      split
      · rename_i hgiven
        refine .inr ⟨fun hchecks => ?_, none, rfl⟩
        simp [hchecks.given, not_isSection_of_checksText hchecks.type] at hgiven
      rename_i hgiven
      rw [lookUp_of_fits h, ok_bind]
      change _ ∧ (if isMissing s.value then _ else _) = _ ∨
        _ ∧ ∃ m, (if isMissing s.value then _ else _) = _
      split
      · rename_i hmissing
        refine .inr ⟨fun hchecks => ?_, _, rfl⟩
        cases hmissing.symm.trans hchecks.present
      rename_i hpresent
      rcases checkByType_cases h s.value with ⟨htype, heq⟩ | ⟨htype, hm⟩
      · simp only [Bool.or_eq_true, not_or, Bool.not_eq_true] at hgiven hpresent
        exact .inl ⟨⟨hshown, hgiven.1, hpresent, htype⟩, heq⟩
      · refine .inr ⟨fun hchecks => ?_, hm⟩
        cases htype.symm.trans hchecks.type

/-- A text at a spot is held against the pattern of the field, if this can be read, and against the
bounds on its length. A malformed pattern is no pattern at all. -/
theorem Spot.ChecksText.message?_eq (hchecks : s.ChecksText) (h : s.field.Fits)
    {text pattern : String} (htext : checkedText s.value = .ok text)
    (hpattern : pattern? s.field = some pattern) :
    (∀ p, Pattern.read pattern = .ok p → s.message? (.ok .standard) =
        if p.occursIn text then lengthMessage s.field text else .ok (some patternMessage)) ∧
      (Pattern.read pattern = .error .malformed →
        s.message? (.ok .standard) = lengthMessage s.field text) := by
  have hmessage : s.message? (.ok .standard) = (do
      if ← matchesPattern pattern text then lengthMessage s.field text
      else return some patternMessage) := by
    rcases message?_cases h with ⟨-, hmessage⟩ | ⟨hnot, -⟩
    · rw [hmessage, checkText_eq h, htext, ok_bind, fitsPattern, hpattern]
    · exact absurd hchecks hnot
  rw [hmessage, matchesPattern]
  constructor
  · intro p hread
    rw [hread]
    rfl
  · intro hread
    rw [hread]
    rfl

end Form

end FormDesigner
