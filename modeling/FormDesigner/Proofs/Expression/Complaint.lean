import FormDesigner.Expression.Parser
import FormDesigner.Proofs.Result

/-!
# Where a parser complains

A parser reads its tokens from the front and leaves an end of them. So whatever it complains about
is one of them, or it is that there are no more. This is shown of one combinator after the other,
and of the levels of nesting by induction.
-/

namespace FormDesigner.Expression

open Result

/-- A complaint at an end of some tokens: at its first one, or at there being none. -/
def ComplainsAt (s : Setting) (tokens : List Token) (f : ParseFault) : Prop :=
  ∃ c rest, rest <:+ tokens ∧ f = s.complain c rest

/-- A parser keeps to its tokens, whether it fails or leaves some of them. -/
structure KeepsTo (s : Setting) (p : Parser Expression) : Prop where
  complains : ∀ tokens, FailsOnly (ComplainsAt s tokens) (p tokens)
  leaves : ∀ {tokens e rest}, p tokens = .ok (e, rest) → rest.1 <:+ tokens

/-- So do all parsers of a level. -/
structure Level.KeepsTo (s : Setting) (level : Level) : Prop where
  expr : Expression.KeepsTo s level.expr
  negation : Expression.KeepsTo s level.negation
  signed : Expression.KeepsTo s level.signed

variable {s : Setting} {deeper : Option Level} {tokens rest : List Token} {t : Token}

theorem ComplainsAt.of_suffix {f : ParseFault} (h : ComplainsAt s rest f)
    (hrest : rest <:+ tokens) : ComplainsAt s tokens f := by
  obtain ⟨c, found, hfound, rfl⟩ := h
  exact ⟨c, found, hfound.trans hrest, rfl⟩

theorem complainsAt_self (c : Complaint) : ComplainsAt s tokens (s.complain c tokens) :=
  ⟨c, tokens, List.suffix_refl _, rfl⟩

/-- What complains about the tokens after the first complains about the tokens. -/
theorem failsOnly_cons {α : Type} {x : Except ParseFault α}
    (h : FailsOnly (ComplainsAt s tokens) x) : FailsOnly (ComplainsAt s (t :: tokens)) x :=
  h.mono fun _ hf => hf.of_suffix (List.suffix_cons t tokens)

/-! ### Chains -/

section Chains

variable {Op : Type} {op? : Lexeme → Option Op}
  {combine : Op → Expression → Expression → Expression} {operand : Parser Expression}

/-- Induction on the tokens: the operand after an operator leaves an end of them, and that is where
the chain goes on. -/
theorem chainFrom_keepsTo (hoperand : KeepsTo s operand) (left : Expression) (tokens : List Token) :
    FailsOnly (ComplainsAt s tokens) (chainFrom op? combine operand left tokens) ∧
      ∀ e rest, chainFrom op? combine operand left tokens = .ok (e, rest) → rest.1 <:+ tokens := by
  induction left, tokens using chainFrom.induct op? combine operand with
  | case1 left =>
      rw [chainFrom]
      refine ⟨failsOnly_ok _, fun e rest h => ?_⟩
      obtain ⟨-, rfl⟩ := Prod.mk.inj (Except.ok.inj h)
      exact List.suffix_refl _
  | case2 left t tokens hop =>
      rw [chainFrom, hop]
      refine ⟨failsOnly_ok _, fun e rest h => ?_⟩
      obtain ⟨-, rfl⟩ := Prod.mk.inj (Except.ok.inj h)
      exact List.suffix_refl _
  | case3 left t tokens op hop f hright =>
      rw [chainFrom, hop]
      simp only [hright]
      exact ⟨failsOnly_cons (failsOnly_error (hoperand.complains tokens f hright)),
        fun _ _ h => by cases h⟩
  | case4 left t tokens op hop right after hright f hmore ih =>
      rw [chainFrom, hop]
      simp only [hright, hmore]
      have hafter : after.1 <:+ t :: tokens := (hoperand.leaves hright).trans (List.suffix_cons _ _)
      exact ⟨failsOnly_error ((ih.1 f hmore).of_suffix hafter), fun _ _ h => by cases h⟩
  | case5 left t tokens op hop right after hright e last hmore ih =>
      rw [chainFrom, hop]
      simp only [hright, hmore]
      have hafter : after.1 <:+ t :: tokens := (hoperand.leaves hright).trans (List.suffix_cons _ _)
      refine ⟨failsOnly_ok _, fun e' rest h => ?_⟩
      obtain ⟨-, rfl⟩ := Prod.mk.inj (Except.ok.inj h)
      exact (ih.2 e last hmore).trans hafter

theorem chain_keepsTo (hoperand : KeepsTo s operand) :
    KeepsTo s (chain op? combine operand) := by
  refine ⟨fun tokens => ?_, fun {tokens e rest} h => ?_⟩
  · unfold chain
    split
    · rename_i f hleft
      exact failsOnly_error (hoperand.complains tokens f hleft)
    · rename_i left after hleft
      have hafter := hoperand.leaves hleft
      split
      · rename_i f hmore
        have hfault := (chainFrom_keepsTo hoperand left after.1).1 f hmore
        exact failsOnly_error (hfault.of_suffix hafter)
      · exact failsOnly_ok _
  · unfold chain at h
    split at h
    · cases h
    · rename_i left after hleft
      split at h
      · cases h
      · rename_i e' last hmore
        obtain ⟨-, rfl⟩ := Prod.mk.inj (Except.ok.inj h)
        exact ((chainFrom_keepsTo hoperand left after.1).2 _ _ hmore).trans (hoperand.leaves hleft)

end Chains

/-! ### Levels -/

theorem enter_keepsTo {part : Level → Parser Expression}
    (hpart : ∀ level, deeper = some level → KeepsTo s (part level)) :
    KeepsTo s (enter s deeper part) := by
  unfold enter
  cases deeper with
  | none => exact ⟨fun _ => failsOnly_error (complainsAt_self _), fun h => by cases h⟩
  | some level => exact hpart level rfl

theorem prefixed_keepsTo {op? : Lexeme → Option UnaryOp} {operand : Level → Parser Expression}
    {otherwise : Parser Expression} (hoperand : KeepsTo s (enter s deeper operand))
    (hotherwise : KeepsTo s otherwise) : KeepsTo s (prefixed s deeper op? operand otherwise) := by
  refine ⟨fun tokens => ?_, fun {tokens e rest} h => ?_⟩
  · unfold prefixed
    split
    · exact hotherwise.complains _
    split
    · exact hotherwise.complains _
    split
    · rename_i f hinner
      exact failsOnly_cons (failsOnly_error (hoperand.complains _ f hinner))
    · exact failsOnly_ok _
  · unfold prefixed at h
    split at h
    · exact hotherwise.leaves h
    split at h
    · exact hotherwise.leaves h
    split at h
    · cases h
    · rename_i hinner
      obtain ⟨-, rfl⟩ := Prod.mk.inj (Except.ok.inj h)
      exact (hoperand.leaves hinner).trans (List.suffix_cons _ _)

theorem qualifiedField?_complains (tokens : List Token) :
    FailsOnly (ComplainsAt s tokens) (qualifiedField? s tokens) := by
  unfold qualifiedField?
  split
  · split
    · exact failsOnly_ok _
    · exact failsOnly_ok _
    · exact failsOnly_cons (failsOnly_error (complainsAt_self _))
  · split
    · exact failsOnly_ok _
    · exact failsOnly_cons (failsOnly_cons (failsOnly_error (complainsAt_self _)))
    · exact failsOnly_cons (failsOnly_error (complainsAt_self _))
  · exact failsOnly_ok _

theorem qualifiedField?_leaves {key : String}
    {rest : { rest : List Token // rest.length ≤ tokens.length }}
    (h : qualifiedField? s tokens = .ok (some (key, rest))) : rest.1 <:+ tokens := by
  unfold qualifiedField? at h
  split at h
  · split at h
    · obtain ⟨-, rfl⟩ := Prod.mk.inj (Option.some.inj (Except.ok.inj h))
      exact List.suffix_append [_, _] _
    · obtain ⟨-, rfl⟩ := Prod.mk.inj (Option.some.inj (Except.ok.inj h))
      exact List.suffix_append [_, _] _
    · cases h
  · split at h
    · obtain ⟨-, rfl⟩ := Prod.mk.inj (Option.some.inj (Except.ok.inj h))
      exact List.suffix_append [_, _, _] _
    · cases h
    · cases h
  · cases h

theorem closeGroup_complains (tokens : List Token) :
    FailsOnly (ComplainsAt s tokens) (closeGroup s tokens) := by
  unfold closeGroup
  split
  · exact failsOnly_ok _
  · exact failsOnly_error (complainsAt_self _)

theorem closeGroup_leaves {rest : Shorter tokens} (h : closeGroup s tokens = .ok rest) :
    rest.1 <:+ tokens := by
  unfold closeGroup at h
  split at h
  · obtain rfl := Except.ok.inj h
    exact List.suffix_cons _ _
  · cases h

theorem primary_keepsTo (hexpr : KeepsTo s (enter s deeper Level.expr)) :
    KeepsTo s (primary s deeper) := by
  refine ⟨fun tokens => ?_, fun {tokens e rest} h => ?_⟩
  · unfold primary
    split
    · exact failsOnly_error (complainsAt_self _)
    split
    · exact failsOnly_ok _
    · exact failsOnly_ok _
    · exact failsOnly_ok _
    · exact failsOnly_ok _
    · exact failsOnly_ok _
    · exact failsOnly_error (complainsAt_self _)
    · split
      · rename_i f hfield
        exact failsOnly_cons (failsOnly_error (qualifiedField?_complains _ f hfield))
      · exact failsOnly_ok _
      · exact failsOnly_ok _
    · exact failsOnly_ok _
    · split
      · rename_i f hinner
        exact failsOnly_cons (failsOnly_error (hexpr.complains _ f hinner))
      · rename_i e inner hinner
        split
        · rename_i f hclose
          have hat := (closeGroup_complains inner.1 f hclose).of_suffix (hexpr.leaves hinner)
          exact failsOnly_cons (failsOnly_error hat)
        · exact failsOnly_ok _
    · exact failsOnly_error (complainsAt_self _)
  · unfold primary at h
    split at h
    · cases h
    -- all but groups and qualified names take one token
    rename_i t tokens
    have hone : ∀ {e' : Expression} {rest : Shorter (t :: tokens)},
        Except.ok (ε := ParseFault) (e', afterFirst) = .ok (e, rest) → rest.1 <:+ t :: tokens :=
      fun h => (Prod.mk.inj (Except.ok.inj h)).2 ▸ List.suffix_cons t tokens
    split at h
    · exact hone h
    · exact hone h
    · exact hone h
    · exact hone h
    · exact hone h
    · cases h
    · split at h
      · cases h
      · rename_i hfield
        obtain ⟨-, rfl⟩ := Prod.mk.inj (Except.ok.inj h)
        exact (qualifiedField?_leaves hfield).trans (List.suffix_cons _ _)
      · exact hone h
    · exact hone h
    · split at h
      · cases h
      · rename_i hinner
        split at h
        · cases h
        · rename_i hclose
          obtain ⟨-, rfl⟩ := Prod.mk.inj (Except.ok.inj h)
          have hinside := (closeGroup_leaves hclose).trans (hexpr.leaves hinner)
          exact hinside.trans (List.suffix_cons _ _)
    · cases h

theorem Level.over_keepsTo (hdeeper : ∀ level, deeper = some level → level.KeepsTo s) :
    (Level.over s deeper).KeepsTo s := by
  have signed : Expression.KeepsTo s (Level.over s deeper).signed :=
    prefixed_keepsTo (enter_keepsTo fun level hlevel => (hdeeper level hlevel).signed)
      (primary_keepsTo (enter_keepsTo fun level hlevel => (hdeeper level hlevel).expr))
  have negation : Expression.KeepsTo s (Level.over s deeper).negation :=
    prefixed_keepsTo (enter_keepsTo fun level hlevel => (hdeeper level hlevel).negation)
      (chain_keepsTo (chain_keepsTo (chain_keepsTo signed)))
  exact ⟨chain_keepsTo (chain_keepsTo negation), negation, signed⟩

theorem Level.allowing_keepsTo (s : Setting) (n : Nat) : (Level.allowing s n).KeepsTo s := by
  induction n with
  | zero =>
      rw [Level.allowing]
      exact Level.over_keepsTo fun _ h => by cases h
  | succ n ih =>
      rw [Level.allowing]
      refine Level.over_keepsTo fun level hlevel => ?_
      obtain rfl := Option.some.inj hlevel
      exact ⟨ih.expr, ih.negation, ih.signed⟩

/-- Whatever is wrong with some tokens is wrong at one of them or at their end. -/
theorem parse_complains (s : Setting) (tokens : List Token) :
    FailsOnly (ComplainsAt s tokens) (parse s tokens) := by
  have hlevel := (Level.allowing_keepsTo s s.depthLimit.toNat).expr
  unfold parse
  split
  · rename_i f hexpr
    exact failsOnly_error (hlevel.complains tokens f hexpr)
  · exact failsOnly_ok _
  · rename_i hexpr
    exact failsOnly_error ⟨_, _, hlevel.leaves hexpr, rfl⟩

end FormDesigner.Expression
