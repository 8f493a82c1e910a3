import Mathlib
import FormDesigner.Expression.Evaluate
import FormDesigner.Proofs.Expression.Reading
import FormDesigner.Proofs.Number.Remainder
import FormDesigner.Proofs.Result

/-!
# How an evaluation fails

Whatever the fields hold, the operators check their operands so well that no number is divided by
zero and no remainder is taken outside of its domain. The faults that remain are numbers out of
range and integers that are too long to be written out. Both are expected where the evaluation of a
text ends, so nothing leaves it but a failure of the expression.
-/

namespace FormDesigner.Expression

open Result

/-- What the evaluation of an expression may fail with: a failure of its own, a number that is out
of range, or an integer that is too long to be written out. -/
inductive IsEvaluationFault : Failure → Prop
  | own (message : String) : IsEvaluationFault (evaluationFailure message)
  | overflow (message : String) : IsEvaluationFault (.fault .overflow message)
  | integerText : IsEvaluationFault .integerTextLimit

/-! ### Numbers -/

variable {a b : Number} {context : Entries}

theorem inRange_failsOnly (r : Option Number) : FailsOnly IsEvaluationFault (inRange r) := by
  cases r with
  | some n => exact failsOnly_ok n
  | none => exact failsOnly_error (.overflow _)

theorem quotient_failsOnly (hzero : ¬ b.isZero) :
    FailsOnly IsEvaluationFault (quotient a b) := by
  rw [quotient, if_neg hzero]
  exact inRange_failsOnly _

theorem remainder_failsOnly (ha : a.isFinite) (hb : b.isFinite) (hzero : ¬ b.isZero) :
    FailsOnly IsEvaluationFault (remainder a b) := by
  have hdivisor : ¬ (!a.isFloat && !b.isFloat && b.isZero) := fun h =>
    hzero (Bool.and_eq_true_iff.1 h).2
  rw [remainder, if_neg hdivisor]
  refine (inRange_failsOnly _).bind fun r hr => ?_
  have hnan : r.isNan = false := by
    cases hrem : a.rem? b with
    | none =>
        rw [hrem] at hr
        cases hr
    | some r' =>
        rw [hrem] at hr
        obtain rfl := Except.ok.inj hr
        exact Number.isNan_of_rem? ha hb (Bool.eq_false_iff.2 hzero) hrem
  rw [hnan]
  exact failsOnly_ok r

/-- Integers are finite, so only floating-point numbers need to be checked. -/
theorem isFinite_and_isFinite (h : ¬ ((a.isFloat || b.isFloat) && !(a.isFinite && b.isFinite))) :
    a.isFinite ∧ b.isFinite := by
  cases a with
  | int m =>
      cases b with
      | int n => exact ⟨rfl, rfl⟩
      | float y => simpa [Number.isFloat, Number.isFinite] using h
  | float x => simpa [Number.isFloat] using h

/-- The operands are checked before anything is divided. -/
theorem calculate_failsOnly (op : BinaryOp) (a b : Number) :
    FailsOnly IsEvaluationFault (calculate op a b) := by
  unfold calculate
  split
  · exact inRange_failsOnly _
  · exact inRange_failsOnly _
  · exact inRange_failsOnly _
  · split
    · exact failsOnly_error (.own _)
    · rename_i hzero
      split
      · exact quotient_failsOnly hzero
      split
      · exact failsOnly_error (.own _)
      · rename_i hfinite
        obtain ⟨ha, hb⟩ := isFinite_and_isFinite hfinite
        exact remainder_failsOnly ha hb hzero

/-! ### Values -/

theorem requireNumber_failsOnly (op : String) (v : Value) :
    FailsOnly IsEvaluationFault (requireNumber op v) := by
  unfold requireNumber
  split
  · exact failsOnly_ok _
  · have hquoted : FailsOnly IsEvaluationFault v.quoted := by
      unfold Value.quoted
      split
      · exact failsOnly_ok _
      · exact failsOnly_error .integerText
    exact hquoted.bind fun _ _ => failsOnly_error (.own _)

theorem joinText_failsOnly (v : Value) : FailsOnly IsEvaluationFault (joinText v) := by
  unfold joinText
  split
  · exact failsOnly_ok _
  · exact failsOnly_error .integerText

theorem arithmetic_failsOnly (op : BinaryOp) (v w : Value) :
    FailsOnly IsEvaluationFault (arithmetic op v w) := by
  unfold arithmetic
  split
  · exact (joinText_failsOnly v).bind fun _ _ => (joinText_failsOnly w).bind fun _ _ =>
      failsOnly_ok _
  · exact (requireNumber_failsOnly _ v).bind fun a _ =>
      (requireNumber_failsOnly _ w).bind fun b _ =>
        (calculate_failsOnly op a b).bind fun _ _ => failsOnly_ok _

theorem applyBinary_failsOnly (op : BinaryOp) (v w : Value) :
    FailsOnly IsEvaluationFault (applyBinary op v w) := by
  cases op with
  | add | sub | mul | div | rem => exact arithmetic_failsOnly _ v w
  | _ => exact failsOnly_ok _

theorem applyUnary_failsOnly (op : UnaryOp) (v : Value) :
    FailsOnly IsEvaluationFault (applyUnary op v) := by
  cases op with
  | not => exact failsOnly_ok _
  | _ => exact (requireNumber_failsOnly _ v).bind fun _ _ => failsOnly_ok _

/-! ### Expressions -/

mutual

/-- By induction on the expression: an operator is applied to the values of its operands only, and
it may fail with no more than they may. -/
theorem evaluate_failsOnly (context : Entries) :
    (e : Expression) → FailsOnly IsEvaluationFault (evaluate context e)
  | .literal _ => by
      rw [evaluate]
      exact failsOnly_ok _
  | .field _ => by
      rw [evaluate]
      exact failsOnly_ok _
  | .unary op e => by
      rw [evaluate]
      exact (evaluate_failsOnly context e).bind fun v _ => applyUnary_failsOnly op v
  | .binary op l r => by
      rw [evaluate]
      exact (evaluate_failsOnly context l).bind fun v _ =>
        (evaluate_failsOnly context r).bind fun w _ => applyBinary_failsOnly op v w
  | .concat parts => by
      rw [evaluate]
      exact (joinAll_failsOnly context parts).bind fun _ _ => failsOnly_ok _
  | .logical op l r => by
      rw [evaluate]
      refine (evaluate_failsOnly context l).bind fun v _ => ?_
      split
      · exact evaluate_failsOnly context r
      · exact failsOnly_ok _

theorem joinAll_failsOnly (context : Entries) :
    (es : List Expression) → FailsOnly IsEvaluationFault (joinAll context es)
  | [] => by
      rw [joinAll]
      exact failsOnly_ok _
  | e :: es => by
      rw [joinAll]
      exact (evaluate_failsOnly context e).bind fun v _ => (joinText_failsOnly v).bind fun _ _ =>
        (joinAll_failsOnly context es).bind fun _ _ => failsOnly_ok _

end

/-! ### Texts -/

/-- Failures of the evaluation of an expression. -/
def IsEvaluationFailure (f : Failure) : Prop :=
  ∃ message source, f = .expression .evaluation message source none

theorem IsEvaluationFault.reported {f : Failure} (h : IsEvaluationFault f) (source : String) :
    IsEvaluationFailure (reported source f) := by
  cases h with
  | own message => exact ⟨message, "", rfl⟩
  | overflow _ => exact ⟨_, source, rfl⟩
  | integerText => exact ⟨_, source, rfl⟩

variable {limits : LimitSource} {source : Value} {e : Option Expression} {f : Failure}

theorem evaluateText_of_compile_eq_error (h : compile limits source = .error f) :
    evaluateText limits source context = .error f := by
  rw [evaluateText, h]
  rfl

theorem evaluateText_failsOnly (h : compile limits source = .ok e) :
    FailsOnly IsEvaluationFailure (evaluateText limits source context) := by
  rw [evaluateText, h, ok_bind]
  cases e with
  | none => exact failsOnly_ok _
  | some e =>
      have hvalue := evaluate_failsOnly context e
      simp only
      cases hv : evaluate context e with
      | ok v => exact failsOnly_ok v
      | error f => exact failsOnly_error ((hvalue f hv).reported _)

/-- A field is shown, and keeps its own value, if its expression fails as such. -/
theorem answers_of_isExpression (h : evaluateText limits source context = .error f)
    (hf : f.isExpression = true) :
    isVisible limits source context = .ok true ∧ computed? limits source context = .ok none := by
  unfold isVisible computed?
  rw [h]
  split
  · exact ⟨rfl, rfl⟩
  · exact ⟨if_pos hf, if_pos hf⟩

/-- An expression that compiles has a value in every context, or its evaluation fails as such. Then
the field is shown and keeps its own value. -/
theorem evaluateText_of_compile (compiles : compile limits source = .ok e) (context : Entries) :
    (∃ v, evaluateText limits source context = .ok v) ∨
      ∃ f, evaluateText limits source context = .error f ∧ IsEvaluationFailure f ∧
        isVisible limits source context = .ok true ∧ computed? limits source context = .ok none := by
  cases htext : evaluateText limits source context with
  | ok v => exact .inl ⟨v, rfl⟩
  | error f =>
      have hf : IsEvaluationFailure f := evaluateText_failsOnly compiles f htext
      have hexpression : f.isExpression = true := by
        obtain ⟨message, text, rfl⟩ := hf
        rfl
      exact .inr ⟨f, rfl, hf, answers_of_isExpression htext hexpression⟩

theorem evaluateText_isExpression (h : FailsOnly IsReadingFailure (compile limits source))
    (context : Entries) :
    FailsOnly (·.isExpression = true) (evaluateText limits source context) := by
  intro f hf
  cases hread : compile limits source with
  | error g =>
      obtain ⟨message, text, position, rfl⟩ := h g hread
      rw [evaluateText_of_compile_eq_error hread] at hf
      exact Except.error.inj hf ▸ rfl
  | ok e =>
      obtain ⟨message, text, rfl⟩ := evaluateText_failsOnly hread f hf
      rfl

/-- Where an expression fails as such, if at all, it is settled whether the field is shown and
whether it keeps its own value. -/
theorem exists_answers
    (h : FailsOnly (·.isExpression = true) (evaluateText limits source context)) :
    (∃ b, isVisible limits source context = .ok b) ∧
      ∃ v, computed? limits source context = .ok v := by
  cases htext : evaluateText limits source context with
  | error f =>
      obtain ⟨hshown, hkept⟩ := answers_of_isExpression htext (h f htext)
      exact ⟨⟨_, hshown⟩, ⟨_, hkept⟩⟩
  | ok v =>
      unfold isVisible computed?
      rw [htext]
      split
      · exact ⟨⟨_, rfl⟩, ⟨_, rfl⟩⟩
      · exact ⟨⟨_, rfl⟩, ⟨_, rfl⟩⟩

/-- The expression that `1/a` writes. -/
def unitQuotient : Expression := .binary .div (.literal (.number (.int 1))) (.field "a")

theorem compile_unitQuotient : compile (.ok .standard) (.text "1/a") = .ok (some unitQuotient) := by
  have hone : Piece.read '1' ['/', 'a'] 0 = .ok (.lexeme (.number (.int 1)) 1) := by cbv
  have hslash : Piece.read '/' ['a'] 1 = .ok (.lexeme (.symbol .slash) 1) := by cbv
  have ha : Piece.read 'a' [] 2 = .ok (.lexeme (.name "a") 1) := by cbv
  have htokens : tokenize "1/a" =
      .ok [⟨.number (.int 1), 0, 1⟩, ⟨.symbol .slash, 1, 1⟩, ⟨.name "a", 2, 1⟩] := by
    change tokensFrom 0 ['1', '/', 'a'] = _
    simp [tokensFrom_cons, tokensFrom_nil, hone, hslash, ha, Piece.size]
  have hparse : parse ⟨64, 3⟩
      [⟨.number (.int 1), 0, 1⟩, ⟨.symbol .slash, 1, 1⟩, ⟨.name "a", 2, 1⟩] = .ok unitQuotient := by
    cbv
  have htrim : Text.trim "1/a" = "1/a" := by decide
  rw [compile_text (by decide), htrim, ofTrimmed_eq_ok.2 ⟨by decide, _, htokens, hparse⟩]
  rfl

/-- Where `a` is zero, the evaluation of `1/a` fails as such. -/
theorem evaluateText_unitQuotient_of_zero :
    compile (.ok .standard) (.text "1/a") = .ok (some unitQuotient) ∧
      ∃ f, evaluateText (.ok .standard) (.text "1/a") [(.text "a", .int 0)] = .error f ∧
        IsEvaluationFailure f ∧
        isVisible (.ok .standard) (.text "1/a") [(.text "a", .int 0)] = .ok true ∧
        computed? (.ok .standard) (.text "1/a") [(.text "a", .int 0)] = .ok none := by
  have hvalue : evaluate [(.text "a", .int 0)] unitQuotient =
      .error (evaluationFailure "Division by zero in '/'") := by cbv
  refine ⟨compile_unitQuotient, ?_⟩
  rcases evaluateText_of_compile compile_unitQuotient [(.text "a", .int 0)] with ⟨v, hv⟩ | h
  · rw [evaluateText, compile_unitQuotient, ok_bind] at hv
    simp only [hvalue] at hv
    cases hv
  · exact h

/-! ### Faults of the numbers in a text -/

/-- Whatever is asked about a text, its expression is all that can be wrong: there is a message
then, and a field with the expression is shown and keeps its own value. -/
structure IsAnswered (limits : Limits) (source : String) : Prop where
  compiles : FailsOnly IsReadingFailure (compile (.ok limits) (.text source))
  checks : ∃ message, check (.ok limits) (.text source) = .ok message
  shows : ∀ context, ∃ b, isVisible (.ok limits) (.text source) context = .ok b
  computes : ∀ context, ∃ v, computed? (.ok limits) (.text source) context = .ok v
  malformed : ∀ f, compile (.ok limits) (.text source) = .error f →
    check (.ok limits) (.text source) = .ok (some f.message) ∧ ∀ context,
      isVisible (.ok limits) (.text source) context = .ok true ∧
        computed? (.ok limits) (.text source) context = .ok none

/-- Whatever is asked about a text, there is no answer but a failure. -/
structure IsStopped (limits : Limits) (source : String) (f : Failure) : Prop where
  compiles : compile (.ok limits) (.text source) = .error f
  checks : check (.ok limits) (.text source) = .error f
  shows : ∀ context, isVisible (.ok limits) (.text source) context = .error f
  computes : ∀ context, computed? (.ok limits) (.text source) context = .error f

section

variable {limits : Limits} {source : String} {digits : Nat}

theorem isStopped_of_hasOverlongInteger
    (h : HasOverlongInteger limits (Text.trim source) digits) :
    IsStopped limits source (.integerDigitLimit digits) := by
  have hcompile := compile_of_hasOverlongInteger h
  have htext : ∀ context, evaluateText (.ok limits) (.text source) context =
      .error (.integerDigitLimit digits) := fun context =>
    evaluateText_of_compile_eq_error hcompile
  have hpresent : ¬ isAbsent (.text source) = true := fun hblank =>
    not_hasOverlongInteger_of_isAllBlank hblank h
  refine ⟨hcompile, ?_, fun context => ?_, fun context => ?_⟩
  · rw [check, hcompile]
    rfl
  · rw [isVisible, if_neg hpresent, htext]
    rfl
  · rw [computed?, if_neg hpresent, htext]
    rfl

theorem isAnswered_of_not_hasOverlongInteger
    (h : ∀ digits, ¬ HasOverlongInteger limits (Text.trim source) digits) :
    IsAnswered limits source := by
  have hcompile := compile_failsOnly h
  have hanswers := fun context => exists_answers (evaluateText_isExpression hcompile context)
  have hmalformed : ∀ f, compile (.ok limits) (.text source) = .error f →
      check (.ok limits) (.text source) = .ok (some f.message) ∧ ∀ context,
        isVisible (.ok limits) (.text source) context = .ok true ∧
          computed? (.ok limits) (.text source) context = .ok none := by
    intro f hf
    obtain ⟨message, text, position, rfl⟩ := hcompile f hf
    refine ⟨by rw [check, hf]; rfl, fun context => ?_⟩
    exact answers_of_isExpression (evaluateText_of_compile_eq_error hf) rfl
  constructor
  · exact hcompile
  · cases hread : compile (.ok limits) (.text source) with
    | error f => exact ⟨_, (hmalformed f hread).1⟩
    | ok e => exact ⟨none, by rw [check, hread]⟩
  · exact fun context => (hanswers context).1
  · exact fun context => (hanswers context).2
  · exact hmalformed

/-- Whatever is asked about a text is answered, unless the text is within the limit on its length
and has an integer of too many digits. Then nothing is answered. No text has such an integer if the
limit is no more than the number of digits that an integer may have. -/
theorem answered_unless_overlong (limits : Limits) (source : String) :
    (IsAnswered limits source ↔
      ∀ digits, ¬ HasOverlongInteger limits (Text.trim source) digits) ∧
    ∀ digits, HasOverlongInteger limits (Text.trim source) digits →
      IsStopped limits source (.integerDigitLimit digits) ∧ maxIntegerDigits < digits ∧
        (digits : Int) ≤ limits.maxLength := by
  refine ⟨⟨fun hanswered digits h => ?_, isAnswered_of_not_hasOverlongInteger⟩, fun digits h =>
    ⟨isStopped_of_hasOverlongInteger h, h.bounds⟩⟩
  obtain ⟨message, hmessage⟩ := hanswered.checks
  cases hmessage.symm.trans (isStopped_of_hasOverlongInteger h).checks

end

/-- Five thousand nines are within a limit of ten thousand characters, but nothing that is asked
about them is answered. -/
theorem stopped_on_nines :
    HasOverlongInteger ⟨10000, 64⟩ (Text.trim (nines 5000)) 5000 ∧
      IsStopped ⟨10000, 64⟩ (nines 5000) (.integerDigitLimit 5000) := by
  have hlong : HasOverlongInteger ⟨10000, 64⟩ (Text.trim (nines 5000)) 5000 := by
    rw [trim_nines]
    exact hasOverlongInteger_nines (by decide) (by decide)
  exact ⟨hlong, ((answered_unless_overlong ⟨10000, 64⟩ (nines 5000)).2 5000 hlong).1⟩

end FormDesigner.Expression
