import FormDesigner.Expression.Parser

/-!
# What the grammar yields

A parser yields nothing but what the constructions of the grammar make of literals and field
references: operands under prefix operators and in chains. So a property of expressions that these
constructions keep holds of every expression that is parsed, however deep it nests.
-/

namespace FormDesigner.Expression

/-- A property that every construction of the grammar keeps. -/
structure IsGrammatical (P : Expression → Prop) : Prop where
  literal : ∀ l, P (.literal l)
  field : ∀ key, P (.field key)
  unary : ∀ op e, P e → P (.unary op e)
  binary : ∀ op l r, P l → P r → P (.binary op l r)
  additive : ∀ op l r, P l → P r → P (combineAdditive op l r)
  logical : ∀ op l r, P l → P r → P (.logical op l r)

/-- Whatever a parser yields has a property. -/
def Yields (P : Expression → Prop) (p : Parser Expression) : Prop :=
  ∀ tokens e rest, p tokens = .ok (e, rest) → P e

/-- So it is with all parsers of a level. -/
structure Level.Yields (P : Expression → Prop) (level : Level) : Prop where
  expr : Expression.Yields P level.expr
  negation : Expression.Yields P level.negation
  signed : Expression.Yields P level.signed

variable {P : Expression → Prop} {s : Setting} {deeper : Option Level}

/-! ### Chains -/

section Chains

variable {Op : Type} {op? : Lexeme → Option Op} {combine : Op → Expression → Expression → Expression}
  {operand : Parser Expression}

/-- Induction on the tokens: each step of a chain combines what has been read so far. -/
theorem chainFrom_yields (hcombine : ∀ op l r, P l → P r → P (combine op l r))
    (hoperand : Yields P operand) {left e : Expression} {tokens : List Token}
    {rest : { rest : List Token // rest.length ≤ tokens.length }} (hleft : P left)
    (h : chainFrom op? combine operand left tokens = .ok (e, rest)) : P e := by
  induction left, tokens using chainFrom.induct op? combine operand with
  | case1 left =>
      rw [chainFrom] at h
      exact (Prod.mk.inj (Except.ok.inj h)).1 ▸ hleft
  | case2 left t tokens hop =>
      rw [chainFrom, hop] at h
      exact (Prod.mk.inj (Except.ok.inj h)).1 ▸ hleft
  | case3 left t tokens op hop f hright =>
      rw [chainFrom, hop] at h
      simp only [hright] at h
      cases h
  | case4 left t tokens op hop right after hright f hmore ih =>
      rw [chainFrom, hop] at h
      simp only [hright, hmore] at h
      cases h
  | case5 left t tokens op hop right after hright e' last hmore ih =>
      rw [chainFrom, hop] at h
      simp only [hright, hmore] at h
      obtain ⟨rfl, -⟩ := Prod.mk.inj (Except.ok.inj h)
      exact ih (hcombine op left right hleft (hoperand _ _ _ hright)) hmore

theorem chain_yields (hcombine : ∀ op l r, P l → P r → P (combine op l r))
    (hoperand : Yields P operand) : Yields P (chain op? combine operand) := by
  intro tokens e rest h
  unfold chain at h
  split at h
  · cases h
  · rename_i left after hleft
    split at h
    · cases h
    · rename_i e' last hmore
      obtain ⟨rfl, -⟩ := Prod.mk.inj (Except.ok.inj h)
      exact chainFrom_yields hcombine hoperand (hoperand _ _ _ hleft) hmore

end Chains

/-! ### Levels -/

theorem enter_yields {part : Level → Parser Expression}
    (hpart : ∀ level, deeper = some level → Yields P (part level)) :
    Yields P (enter s deeper part) := by
  intro tokens e rest h
  unfold enter at h
  split at h
  · exact hpart _ rfl _ _ _ h
  · cases h

theorem primary_yields (hP : IsGrammatical P)
    (hdeeper : ∀ level, deeper = some level → level.Yields P) : Yields P (primary s deeper) := by
  intro tokens e rest h
  unfold primary at h
  split at h
  · cases h
  split at h
  · exact (Prod.mk.inj (Except.ok.inj h)).1 ▸ hP.literal _
  · exact (Prod.mk.inj (Except.ok.inj h)).1 ▸ hP.literal _
  · exact (Prod.mk.inj (Except.ok.inj h)).1 ▸ hP.literal _
  · exact (Prod.mk.inj (Except.ok.inj h)).1 ▸ hP.literal _
  · exact (Prod.mk.inj (Except.ok.inj h)).1 ▸ hP.literal _
  · cases h
  · split at h
    · cases h
    · exact (Prod.mk.inj (Except.ok.inj h)).1 ▸ hP.field _
    · exact (Prod.mk.inj (Except.ok.inj h)).1 ▸ hP.field _
  · exact (Prod.mk.inj (Except.ok.inj h)).1 ▸ hP.field _
  · split at h
    · cases h
    · rename_i hinner
      split at h
      · cases h
      · obtain ⟨rfl, -⟩ := Prod.mk.inj (Except.ok.inj h)
        exact enter_yields (fun level hlevel => (hdeeper level hlevel).expr) _ _ _ hinner
  · cases h

theorem prefixed_yields (hP : IsGrammatical P) {op? : Lexeme → Option UnaryOp}
    {operand : Level → Parser Expression} {otherwise : Parser Expression}
    (hoperand : ∀ level, deeper = some level → Yields P (operand level))
    (hotherwise : Yields P otherwise) : Yields P (prefixed s deeper op? operand otherwise) := by
  intro tokens e rest h
  unfold prefixed at h
  split at h
  · exact hotherwise _ _ _ h
  split at h
  · exact hotherwise _ _ _ h
  split at h
  · cases h
  · rename_i hinner
    obtain ⟨rfl, -⟩ := Prod.mk.inj (Except.ok.inj h)
    exact hP.unary _ _ (enter_yields hoperand _ _ _ hinner)

/-- The parsers of a level yield what is built from what those of the next level yield. -/
theorem Level.over_yields (hP : IsGrammatical P)
    (hdeeper : ∀ level, deeper = some level → level.Yields P) :
    (Level.over s deeper).Yields P := by
  have signed : Expression.Yields P (Level.over s deeper).signed :=
    prefixed_yields hP (fun level hlevel => (hdeeper level hlevel).signed)
      (primary_yields hP hdeeper)
  have additive : Expression.Yields P (chain additiveOp? combineAdditive
      (chain termOp? Expression.binary (Level.over s deeper).signed)) :=
    chain_yields hP.additive (chain_yields hP.binary signed)
  have negation : Expression.Yields P (Level.over s deeper).negation :=
    prefixed_yields hP (fun level hlevel => (hdeeper level hlevel).negation)
      (chain_yields hP.binary additive)
  exact ⟨chain_yields hP.logical (chain_yields hP.logical negation), negation, signed⟩

theorem Level.allowing_yields (hP : IsGrammatical P) (s : Setting) (n : Nat) :
    (Level.allowing s n).Yields P := by
  induction n with
  | zero =>
      rw [Level.allowing]
      exact Level.over_yields hP fun _ h => by cases h
  | succ n ih =>
      rw [Level.allowing]
      refine Level.over_yields hP fun level hlevel => ?_
      obtain rfl := Option.some.inj hlevel
      exact ⟨ih.expr, ih.negation, ih.signed⟩

/-- What the grammar keeps holds of every expression that is parsed. -/
theorem parse_yields (hP : IsGrammatical P) {tokens : List Token} {e : Expression}
    (h : parse s tokens = .ok e) : P e := by
  unfold parse at h
  split at h
  · cases h
  · rename_i hexpr
    obtain rfl := Except.ok.inj h
    exact (Level.allowing_yields hP s _).expr _ _ _ hexpr
  · cases h

end FormDesigner.Expression
