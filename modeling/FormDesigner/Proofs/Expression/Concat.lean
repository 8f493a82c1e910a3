import FormDesigner.Expression.Evaluate
import FormDesigner.Proofs.Expression.Grammar
import FormDesigner.Proofs.Result

/-!
# Concatenations as chains of additions

A concatenation node renders all of its parts as text, while an addition decides by its operands
whether it joins texts. The two agree on what is parsed because one of the first two parts of a
concatenation is a text that the source writes out: the first addition of the chain joins texts
then, and from there on the left operand is a text.
-/

namespace FormDesigner.Expression

/-- Parts added up from the left. -/
def sum : List Expression → Expression
  | [] => .literal (.text "")
  | e :: es => es.foldl (.binary .add) e

mutual

/-- An expression with a chain of additions in the place of every concatenation. -/
def chained : Expression → Expression
  | .literal l => .literal l
  | .field key => .field key
  | .unary op e => .unary op (chained e)
  | .binary op l r => .binary op (chained l) (chained r)
  | .concat parts => sum (chainedAll parts)
  | .logical op l r => .logical op (chained l) (chained r)

def chainedAll : List Expression → List Expression
  | [] => []
  | e :: es => chained e :: chainedAll es

end

theorem chainedAll_eq_map (es : List Expression) : chainedAll es = es.map chained := by
  induction es with
  | nil => rfl
  | cons e es ih => rw [chainedAll, ih, List.map_cons]

/-- Every concatenation in an expression has a text that is written out among its first two
parts. -/
inductive JoinsText : Expression → Prop
  | literal (l : Literal) : JoinsText (.literal l)
  | field (key : String) : JoinsText (.field key)
  | unary {op : UnaryOp} {e : Expression} (operand : JoinsText e) : JoinsText (.unary op e)
  | binary {op : BinaryOp} {l r : Expression} (left : JoinsText l) (right : JoinsText r) :
      JoinsText (.binary op l r)
  | concat {p q : Expression} {rest : List Expression}
      (written : p.isText = true ∨ q.isText = true) (parts : ∀ e ∈ p :: q :: rest, JoinsText e) :
      JoinsText (.concat (p :: q :: rest))
  | logical {op : Connective} {l r : Expression} (left : JoinsText l) (right : JoinsText r) :
      JoinsText (.logical op l r)

/-! ### What is parsed -/

theorem JoinsText.combineAdditive {op : BinaryOp} {l r : Expression} (hl : JoinsText l)
    (hr : JoinsText r) : JoinsText (combineAdditive op l r) := by
  unfold Expression.combineAdditive
  split
  · cases hl with
    | @concat p q rest written parts =>
        have hparts : ∀ e ∈ (p :: q :: rest) ++ [r], JoinsText e :=
          List.forall_mem_append.2 ⟨parts, List.forall_mem_singleton.2 hr⟩
        exact .concat written hparts
  · split
    · rename_i htext
      refine .concat ((Bool.or_eq_true _ _).mp htext) ?_
      exact List.forall_mem_cons.2 ⟨hl, List.forall_mem_singleton.2 hr⟩
    · exact .binary hl hr
  · exact .binary hl hr

theorem isGrammatical_joinsText : IsGrammatical JoinsText where
  literal := .literal
  field := .field
  unary _ _ := .unary
  binary _ _ _ := .binary
  additive _ _ _ := .combineAdditive
  logical _ _ _ := .logical

/-! ### Values -/

variable {context : Entries} {p q e : Expression} {es : List Expression}

theorem joinText_text (s : String) : joinText (.text s) = .ok s := rfl

theorem arithmetic_add_text {v w : Value} (h : isTextValue v = true ∨ isTextValue w = true) :
    arithmetic .add v w = do
      let left ← joinText v
      let right ← joinText w
      return .text (left ++ right) := by
  have hjoin : (decide (BinaryOp.add = .add) && (isTextValue v || isTextValue w)) = true := by
    simpa using h
  rw [arithmetic, if_pos hjoin]

/-- An expression has no values but texts in a context, if it has one. -/
def IsTextual (context : Entries) (e : Expression) : Prop :=
  ∀ v, evaluate context e = .ok v → ∃ s, v = .text s

theorem evaluate_of_isText (h : e.isText = true) : ∃ s, evaluate context e = .ok (.text s) := by
  unfold isText at h
  split at h
  · rw [evaluate]
    exact ⟨_, rfl⟩
  · cases h

theorem joinAll_nil : joinAll context [] = pure "" := rfl

theorem joinAll_cons (e : Expression) (es : List Expression) :
    joinAll context (e :: es) = do
      let s ← joinText (← evaluate context e)
      return s ++ (← joinAll context es) := by
  rw [joinAll]

/-- The text of an addition is that of its operands one after the other, if one of them is sure to
be a text. A right operand must also be sure to have a value, since the left one is rendered only
after both have been evaluated. -/
theorem evaluate_add (h : IsTextual context p ∨ ∃ s, evaluate context q = .ok (.text s)) :
    evaluate context (.binary .add p q) = .text <$> joinAll context [p, q] := by
  rw [evaluate, joinAll_cons, joinAll_cons, joinAll_nil]
  cases hp : evaluate context p with
  | error f => rfl
  | ok v =>
      rcases h with hleft | ⟨t, hq⟩
      · obtain ⟨s, rfl⟩ := hleft v hp
        cases evaluate context q with
        | error f => rfl
        | ok w =>
            have hadd : arithmetic .add (.text s) w = _ := arithmetic_add_text (.inl rfl)
            simp only [Result.ok_bind, applyBinary, hadd, map_bind, map_pure, bind_assoc, pure_bind,
              String.append_empty]
      · have hadd : arithmetic .add v (.text t) = _ := arithmetic_add_text (.inr rfl)
        simp only [hq, Result.ok_bind, applyBinary, hadd, map_bind, map_pure, bind_assoc, pure_bind,
          String.append_empty]

theorem isTextual_add (h : IsTextual context p ∨ ∃ s, evaluate context q = .ok (.text s)) :
    IsTextual context (.binary .add p q) := by
  intro v hv
  rw [evaluate_add h] at hv
  obtain ⟨s, -, rfl⟩ := Result.map_eq_ok.1 hv
  exact ⟨s, rfl⟩

/-- What is joined does not depend on where the first two parts are joined. -/
theorem joinAll_add (h : IsTextual context p ∨ ∃ s, evaluate context q = .ok (.text s))
    (es : List Expression) :
    joinAll context (.binary .add p q :: es) = joinAll context (p :: q :: es) := by
  simp only [joinAll_cons, joinAll_nil, evaluate_add h, map_bind, map_pure, bind_assoc, pure_bind,
    joinText_text, Result.ok_bind, String.append_empty, String.append_assoc]

/-- A chain of additions that starts with a text joins the texts of all of its parts. -/
theorem evaluate_foldl_add (h : IsTextual context e) :
    evaluate context (es.foldl (.binary .add) e) = .text <$> joinAll context (e :: es) := by
  induction es generalizing e with
  | nil =>
      rw [List.foldl_nil, joinAll_cons, joinAll]
      cases he : evaluate context e with
      | error f => rfl
      | ok v =>
          obtain ⟨s, rfl⟩ := h v he
          change _ = Except.ok (Value.text (s ++ ""))
          rw [String.append_empty]
  | cons q es ih =>
      rw [List.foldl_cons, ih (isTextual_add (.inl h)), joinAll_add (.inl h)]

theorem evaluate_sum (h : p.isText = true ∨ q.isText = true) (rest : List Expression) :
    evaluate context (sum (p :: q :: rest)) = evaluate context (.concat (p :: q :: rest)) := by
  have hadd : IsTextual context p ∨ ∃ s, evaluate context q = .ok (.text s) := by
    refine h.imp (fun hp v hv => ?_) evaluate_of_isText
    obtain ⟨s, hs⟩ := evaluate_of_isText hp
    exact ⟨s, Except.ok.inj (hv.symm.trans hs)⟩
  calc evaluate context (rest.foldl (.binary .add) (.binary .add p q))
      = .text <$> joinAll context (.binary .add p q :: rest) :=
        evaluate_foldl_add (isTextual_add hadd)
    _ = .text <$> joinAll context (p :: q :: rest) := by rw [joinAll_add hadd]
    _ = evaluate context (.concat (p :: q :: rest)) := by rw [evaluate, map_eq_pure_bind]

theorem joinAll_map (f : Expression → Expression)
    (h : ∀ e ∈ es, evaluate context (f e) = evaluate context e) :
    joinAll context (es.map f) = joinAll context es := by
  induction es with
  | nil => rfl
  | cons e es ih =>
      obtain ⟨he, hes⟩ := List.forall_mem_cons.1 h
      rw [List.map_cons, joinAll_cons, joinAll_cons, he, ih hes]

theorem isText_chained (e : Expression) (h : e.isText = true) : e.chained.isText = true := by
  unfold isText at h
  split at h
  · rfl
  · cases h

/-- Induction over the expression: the parts of a concatenation are chained themselves. -/
theorem JoinsText.evaluate_chained (h : JoinsText e) (context : Entries) :
    evaluate context e.chained = evaluate context e := by
  induction h with
  | literal l => rfl
  | field key => rfl
  | unary _ ih => rw [chained, evaluate, evaluate, ih]
  | binary _ _ ihl ihr => rw [chained, evaluate, evaluate, ihl, ihr]
  | logical _ _ ihl ihr => rw [chained, evaluate, evaluate, ihl, ihr]
  | @concat p q rest written parts ih =>
      have hchained : p.chained.isText = true ∨ q.chained.isText = true :=
        written.imp (isText_chained p) (isText_chained q)
      rw [chained, chainedAll_eq_map, List.map_cons, List.map_cons, evaluate_sum hchained,
        ← List.map_cons, ← List.map_cons, evaluate, evaluate, joinAll_map chained ih]

/-- An expression that is parsed, from whatever text and with whatever limit on its depth, has the
same value, or none for the same reason, if chains of additions stand in the place of its
concatenations. -/
theorem evaluate_chained_of_parse {s : Setting} {tokens : List Token} {e : Expression}
    (parsed : parse s tokens = .ok e) (context : Entries) :
    evaluate context e.chained = evaluate context e :=
  (parse_yields isGrammatical_joinsText parsed).evaluate_chained context

/-- The tokens of `a + 'b' + (1 - c)`. -/
def mixedTokens : List Token :=
  [⟨.name "a", 0, 1⟩, ⟨.symbol .plus, 2, 1⟩, ⟨.text "b", 4, 3⟩, ⟨.symbol .plus, 8, 1⟩,
    ⟨.symbol .openParen, 10, 1⟩, ⟨.number (.int 1), 11, 1⟩, ⟨.symbol .minus, 13, 1⟩,
    ⟨.name "c", 15, 1⟩, ⟨.symbol .closeParen, 16, 1⟩]

/-- The expression that they write. -/
def mixedSum : Expression :=
  .concat [.field "a", .literal (.text "b"),
    .binary .sub (.literal (.number (.int 1))) (.field "c")]

/-- Whatever the fields `a` and `c` hold, the concatenation and the chain have the same outcome. -/
theorem evaluate_chained_mixedSum :
    parse ⟨64, 17⟩ mixedTokens = .ok mixedSum ∧
      ∀ context, evaluate context mixedSum.chained = evaluate context mixedSum := by
  have parsed : parse ⟨64, 17⟩ mixedTokens = .ok mixedSum := by cbv
  exact ⟨parsed, evaluate_chained_of_parse parsed⟩

end FormDesigner.Expression
