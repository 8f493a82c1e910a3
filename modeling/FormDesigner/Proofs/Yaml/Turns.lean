import FormDesigner.Proofs.Yaml.Words

/-!
# One token after the other

Before a token, blanks and line breaks are passed, and collections that are indented deeper than it
are closed. `Leads` says how scanning comes from the start of one token to the start of a later one.
-/

namespace FormDesigner

namespace Yaml

/-! ### Before a token -/

/-- Passes what stands before a token, and forgets the places where no key can begin any more. -/
def arrive : Scanner Unit := do
  skipToToken ((← get).rest.length + 1)
  dropStale

/-- Closes the collections that are indented deeper, then takes a token and those after it. -/
def goOn (fuel : Nat) : Scanner Unit := do
  unwind (← get).column
  match ← peek 0 with
  | none =>
    unwind (-1)
    dropPlace
  | some c =>
    tokenAt c
    tokensFrom fuel

theorem tokensFrom_succ (fuel : Nat) : tokensFrom (fuel + 1) = arrive >>= fun _ => goOn fuel := by
  simp only [arrive, bind_assoc]
  rfl

namespace Scan

/-- No key can have begun at the places that are remembered. -/
def IsFree (s : Scan) : Prop := ∀ p ∈ s.places, p.2.required = false ∧ p.2.line ≠ s.line

/-- A key may have begun at all of the places that are remembered. -/
def IsFresh (s : Scan) : Prop :=
  ∀ p ∈ s.places, p.2.line = s.line ∧ s.index ≤ p.2.index + 1024

def forgetting (s : Scan) : Scan := { s with places := [] }

def pushing (s : Scan) (t : Token) : Scan := { s with tokens := s.tokens.push t }

end Scan

variable {s t u : Scan} {n : Nat}

theorem dropStale_run_free (h : s.IsFree) : dropStale.run s = .ok ((), s.forgetting) := by
  have hany : (s.places.any fun p => (p.2.line != s.line || decide (p.2.index + 1024 < s.index))
      && p.2.required) = false :=
    List.any_eq_false.2 fun p hp => by simp [(h p hp).1]
  have hfilter : (s.places.filter fun p => !(p.2.line != s.line
      || decide (p.2.index + 1024 < s.index))) = [] :=
    List.filter_eq_nil_iff.2 fun p hp => by simp [(h p hp).2]
  rw [dropStale, run_get_bind]
  simp only [hany, Bool.false_eq_true, if_false]
  change Except.ok ((), { s with places := s.places.filter _ }) = _
  rw [hfilter]
  rfl

theorem dropStale_run_fresh (h : s.IsFresh) : dropStale.run s = .ok ((), s) := by
  have hstale : ∀ p ∈ s.places,
      (p.2.line != s.line || decide (p.2.index + 1024 < s.index)) = false :=
    fun p hp => by simp [(h p hp).1, (h p hp).2]
  have hany : (s.places.any fun p => (p.2.line != s.line || decide (p.2.index + 1024 < s.index))
      && p.2.required) = false :=
    List.any_eq_false.2 fun p hp => by simp [hstale p hp]
  have hfilter : (s.places.filter fun p => !(p.2.line != s.line
      || decide (p.2.index + 1024 < s.index))) = s.places :=
    List.filter_eq_self.2 fun p hp => by simp [hstale p hp]
  rw [dropStale, run_get_bind]
  simp only [hany, Bool.false_eq_true, if_false]
  change Except.ok ((), { s with places := s.places.filter _ }) = _
  rw [hfilter]

/-- What a token may begin with. -/
structure StartsToken (cs : List Char) : Prop where
  ink : StartsInk cs
  comment : cs.head? ≠ some '#'

theorem skipToToken_run {k : Nat} {rest : List Char} (h : s.rest = indentation k ++ rest)
    (hrest : StartsToken rest) (fuel : Nat) :
    (skipToToken (fuel + 1)).run s = .ok ((), s.ahead k) := by
  have hnext := Scan.rest_ahead_indentation h
  rw [skipToToken, run_bind (skip_blanks_run h fun hc => (hrest.ink.1 ' ' hc).1 rfl),
    run_bind (skipComment_run (hnext ▸ hrest.comment)),
    run_bind (lineBreak_run_none (hnext ▸ hrest.ink.2))]
  rfl

/-- A key may begin on the next line, except between brackets. -/
theorem skipToToken_run_feed {k : Nat} {rest : List Char}
    (h : s.rest = '\n' :: (indentation k ++ rest)) (hrest : StartsToken rest) (fuel : Nat) :
    (skipToToken (fuel + 2)).run s =
      .ok ((), (s.ahead (k + 1)).allowing (s.flow == 0 || s.keyAllowed)) := by
  have hblank : (skip ' ').run s = .ok ((), s.ahead 0) := skip_blanks_run h (by simp)
  have hcomment : s.rest.head? ≠ some '#' := by simp [h]
  have hnext : ∀ b, ((s.ahead 1).allowing b).rest = indentation k ++ rest := fun _ =>
    Scan.rest_ahead_one h
  rw [skipToToken, run_bind hblank, Scan.ahead_zero, run_bind (skipComment_run hcomment),
    run_bind (lineBreak_run h (.inl rfl))]
  simp only [List.isEmpty_cons, Bool.false_eq_true, if_false]
  rw [run_get_bind, Scan.ahead_flow]
  have hsame : (s.ahead 1).allowing s.keyAllowed = s.ahead 1 := by
    rw [← Scan.ahead_keyAllowed s 1]
    rfl
  cases hflow : s.flow == 0 with
  | true =>
      simp only [if_true]
      rw [run_bind (allowKey_run true _), skipToToken_run (hnext true) hrest, Scan.ahead_allowing,
        ← Scan.ahead_add, Nat.add_comm, Bool.true_or]
  | false =>
      simp only [Bool.false_eq_true, if_false]
      change (skipToToken (fuel + 1)).run (s.ahead 1) = _
      rw [← hsame, skipToToken_run (hnext _) hrest, Scan.ahead_allowing, ← Scan.ahead_add,
        Nat.add_comm, Bool.false_or]

/-- On the same line. -/
theorem arrive_run {k : Nat} {rest : List Char} (h : s.rest = indentation k ++ rest)
    (hrest : StartsToken rest) (hfresh : (s.ahead k).IsFresh) :
    arrive.run s = .ok ((), s.ahead k) := by
  rw [arrive, run_get_bind, run_bind (skipToToken_run h hrest _), dropStale_run_fresh hfresh]

theorem arrive_run_free {rest : List Char} (h : s.rest = rest) (hrest : StartsToken rest)
    (hfree : s.IsFree) : arrive.run s = .ok ((), s.forgetting) := by
  rw [arrive, run_get_bind, run_bind (skipToToken_run (k := 0) h hrest _), Scan.ahead_zero,
    dropStale_run_free hfree]

/-- On the next line. -/
theorem arrive_run_feed {k : Nat} {rest : List Char} (h : s.rest = '\n' :: (indentation k ++ rest))
    (hrest : StartsToken rest) (hflow : s.flow = 0) (hfree : (s.ahead (k + 1)).IsFree) :
    arrive.run s = .ok ((), ((s.ahead (k + 1)).allowing true).forgetting) := by
  have hlength : s.rest.length + 1 = (indentation k ++ rest).length + 2 := by rw [h]; rfl
  have hskip := skipToToken_run_feed h hrest (indentation k ++ rest).length
  rw [hflow, beq_self_eq_true, Bool.true_or] at hskip
  rw [arrive, run_get_bind, hlength, run_bind hskip,
    dropStale_run_free (s := (s.ahead (k + 1)).allowing true) hfree]

/-! ### Closing collections -/

theorem closeDeeper_run_settled {column : Int} (h : s.indent ≤ column) (outer : List Int) :
    (closeDeeper column outer).run s = .ok ((), s) := by
  cases outer with
  | nil => rfl
  | cons o outer =>
      rw [closeDeeper, run_get_bind, if_neg (by omega)]
      rfl

theorem unwind_run (hflow : s.flow = 0) (column : Int) :
    (unwind column).run s = (closeDeeper column s.outer).run s := by
  have hflow' : (s.flow == 0) = true := by simp [hflow]
  rw [unwind, run_get_bind]
  simp only [hflow', if_true]

theorem unwind_run_settled {column : Int} (h : s.indent ≤ column) :
    (unwind column).run s = .ok ((), s) := by
  rw [unwind, run_get_bind]
  split
  · exact closeDeeper_run_settled h _
  · rfl

/-- The scan after the innermost collection has been closed. -/
def Scan.closing (s : Scan) (o : Int) (outer : List Int) : Scan :=
  { s with indent := o, outer := outer, tokens := s.tokens.push .blockEnd }

theorem unwind_run_closing {column o : Int} {outer : List Int} (hflow : s.flow = 0)
    (houter : s.outer = o :: outer) (h : column < s.indent) :
    (unwind column).run s = (unwind column).run (s.closing o outer) := by
  rw [unwind_run hflow, unwind_run (s := s.closing o outer) hflow, houter, closeDeeper,
    run_get_bind, if_pos h]
  rfl

/-! ### From token to token -/

/-- Scanning comes from `s` to `t`, and takes no more turns than it passes characters. -/
def Leads (s t : Scan) : Prop :=
  ∃ k, k + t.rest.length ≤ s.rest.length ∧ ∀ fuel, (goOn (fuel + k)).run s = (goOn fuel).run t

namespace Leads

theorem refl (s : Scan) : Leads s s := ⟨0, by omega, fun _ => rfl⟩

theorem trans (h : Leads s t) (h' : Leads t u) : Leads s u := by
  obtain ⟨k, hk, hrun⟩ := h
  obtain ⟨k', hk', hrun'⟩ := h'
  refine ⟨k' + k, by omega, fun fuel => ?_⟩
  rw [← Nat.add_assoc, hrun, hrun']

/-- A collection that is indented deeper is closed before a token is taken. -/
theorem closing {o : Int} {outer : List Int} (hflow : s.flow = 0) (houter : s.outer = o :: outer)
    (h : (s.column : Int) < s.indent) : Leads s (s.closing o outer) := by
  refine ⟨0, Nat.le_of_eq (Nat.zero_add _), fun fuel => ?_⟩
  rw [goOn, run_get_bind, goOn, run_get_bind, StateT.run_bind, StateT.run_bind,
    unwind_run_closing hflow houter h]
  rfl

end Leads

/-- Scanning comes from `s` to `t` after what stands before the next token. -/
def Comes (s t : Scan) : Prop :=
  ∃ u, arrive.run s = .ok ((), u) ∧ u.rest.length ≤ s.rest.length ∧ Leads u t

namespace Comes

theorem trans (h : Comes s t) (h' : Leads t u) : Comes s u := by
  obtain ⟨v, harrive, hle, hleads⟩ := h
  exact ⟨v, harrive, hle, hleads.trans h'⟩

/-- On the same line. -/
theorem inline {k : Nat} {rest : List Char} (h : s.rest = indentation k ++ rest)
    (hrest : StartsToken rest) (hfresh : (s.ahead k).IsFresh) : Comes s (s.ahead k) :=
  ⟨_, arrive_run h hrest hfresh, by simp, .refl _⟩

theorem free {rest : List Char} (h : s.rest = rest) (hrest : StartsToken rest) (hfree : s.IsFree) :
    Comes s s.forgetting := ⟨_, arrive_run_free h hrest hfree, Nat.le_refl _, .refl _⟩

/-- On the next line. -/
theorem feed {k : Nat} {rest : List Char} (h : s.rest = '\n' :: (indentation k ++ rest))
    (hrest : StartsToken rest) (hflow : s.flow = 0) (hfree : (s.ahead (k + 1)).IsFree) :
    Comes s ((s.ahead (k + 1)).allowing true).forgetting := by
  refine ⟨_, arrive_run_feed h hrest hflow hfree, ?_, .refl _⟩
  change (s.ahead (k + 1)).rest.length ≤ s.rest.length
  simp

end Comes

/-- A token is taken. -/
theorem Leads.turn {c : Char} {rest : List Char} (h : s.rest = c :: rest)
    (hsettled : s.indent ≤ s.column) (htoken : (tokenAt c).run s = .ok ((), t))
    (hlt : t.rest.length < s.rest.length) (hcomes : Comes t u) : Leads s u := by
  obtain ⟨v, harrive, hle, hleads⟩ := hcomes
  refine .trans ⟨1, by omega, fun fuel => ?_⟩ hleads
  have hpeek : s.rest[0]? = some c := by rw [h]; rfl
  rw [goOn, run_get_bind, run_bind (unwind_run_settled hsettled), run_bind (peek_run 0 s), hpeek]
  dsimp only
  rw [run_bind htoken, tokensFrom_succ, run_bind harrive]

/-! ### Which token comes next -/

/-- No document ends here, and no directive begins. -/
def Scan.IsInside (s : Scan) : Prop :=
  0 < s.column ∨ IsUnseparated s.rest ∧ s.rest.head? ≠ some '%'

theorem run_past_separators {c : Char} {cs : List Char} (h : s.IsInside) (hs : s.rest = c :: cs)
    (percent hyphens dots x : Scanner Unit) :
    (if (c == '%' && s.column == 0) = true then percent
      else do
        let hyphen ← atSeparator '-'
        if (s.column == 0 && hyphen) = true then hyphens
        else do
          let dot ← atSeparator '.'
          if (s.column == 0 && dot) = true then dots else x).run s = x.run s := by
  have hpercent : (c == '%' && s.column == 0) = false := by
    rcases h with h | ⟨-, h⟩
    · simp [Nat.ne_of_gt h]
    · have : c ≠ '%' := by simpa [hs] using h
      simp [this]
  have hseparator : ∀ d, d = '-' ∨ d = '.' →
      ∃ b, (atSeparator d).run s = .ok (b, s) ∧ (s.column == 0 && b) = false := by
    intro d hd
    rcases h with h | ⟨h, -⟩
    · obtain ⟨b, hb⟩ := atSeparator_run d s
      exact ⟨b, hb, by simp [Nat.ne_of_gt h]⟩
    · exact ⟨false, atSeparator_run_false h hd, Bool.and_false _⟩
  obtain ⟨a, ha, ha'⟩ := hseparator '-' (.inl rfl)
  obtain ⟨b, hb, hb'⟩ := hseparator '.' (.inr rfl)
  rw [hpercent]
  simp only [Bool.false_eq_true, if_false]
  rw [run_bind ha]
  simp only [ha', Bool.false_eq_true, if_false]
  rw [run_bind hb]
  simp only [hb', Bool.false_eq_true, if_false]

/-- What a plain scalar begins with. -/
structure BeginsPlain (c : Char) (next : Option Char) : Prop where
  ink : endsToken (some c) = false
  unmarked : c ∉ "#,[]\x7b\x7d&*!|>'\"%@`".toList
  follows : c = '-' ∨ c = '?' ∨ c = ':' → endsToken next = false

theorem BeginsPlain.startsPlain {c : Char} {next : Option Char} (hc : BeginsPlain c next)
    {inFlow : Bool} (hflow : inFlow = false ∨ c ≠ '?' ∧ c ≠ ':') :
    startsPlain inFlow c next = true := by
  unfold Yaml.startsPlain
  by_cases hmark : c = '-' ∨ c = '?' ∨ c = ':'
  · rw [hc.follows hmark]
    rcases hmark with rfl | rfl | rfl
    · simp
    · simp [hflow.resolve_right (by simp)]
    · simp [hflow.resolve_right (by simp)]
  · have hspecial : c ∉ "-?:,[]\x7b\x7d#&*!|>'\"%@`".toList := by
      intro hmem
      have hsplit : ∀ d ∈ "-?:,[]\x7b\x7d#&*!|>'\"%@`".toList, (d = '-' ∨ d = '?' ∨ d = ':') ∨
          d ∈ "#,[]\x7b\x7d&*!|>'\"%@`".toList := by decide
      exact (hsplit c hmem).elim hmark hc.unmarked
    have hcontains : "-?:,[]\x7b\x7d#&*!|>'\"%@`".toList.contains c = false := by
      rw [List.contains_eq_mem, decide_eq_false hspecial]
    simp only [hc.ink, hcontains, Bool.or_self, Bool.not_false, Bool.true_or]

theorem IsPlain.begins {text out : List Char} (htext : IsPlain text) (h : InWords n text out)
    (tail : List Char) : ∃ c rest, out ++ tail = c :: rest ∧ BeginsPlain c rest.head? := by
  obtain ⟨w, more, more', hw, rfl, rfl, hspaced⟩ := h.startsWord
  cases w with
  | nil => exact absurd rfl hw.filled
  | cons c w =>
      have hmarked := htext.marked
      simp only [List.cons_append, isMarked, Bool.or_eq_false_iff] at hmarked
      have hstart := hmarked.1.2
      rw [startsMarked, Bool.false_or, Bool.or_eq_false_iff, Bool.or_eq_false_iff] at hstart
      obtain ⟨⟨hspecial, hquestion⟩, hhyphen⟩ := hstart
      refine ⟨c, w ++ (more' ++ tail), by simp, (hw.ink c (.head _)).1, ?_, fun hc => ?_⟩
      · intro hmem
        rw [List.contains_eq_mem, decide_eq_false_iff_not] at hspecial
        exact hspecial hmem
      · -- The word does not end after the mark, which would mean something then.
        have hgoes : endsSpacing (w ++ more).head? = false := by
          rcases hc with rfl | rfl | rfl
          · simpa using hhyphen
          · simpa using hquestion
          · simpa using hquestion
        cases w with
        | nil => simp [hspaced] at hgoes
        | cons d w => exact (hw.ink d (.tail _ (.head _))).1

section Kinds

variable {rest : List Char} (h : s.IsInside)

include h

theorem tokenAt_hyphen (hs : s.rest = '-' :: rest) (hrest : endsToken rest.head? = true) :
    (tokenAt '-').run s = blockEntry.run s := by
  rw [tokenAt, run_get_bind, run_past_separators h hs]
  simp [hs, ← List.head?_eq_getElem?, hrest]

theorem tokenAt_colon (hs : s.rest = ':' :: rest) (hrest : endsToken rest.head? = true) :
    (tokenAt ':').run s = valueMark.run s := by
  rw [tokenAt, run_get_bind, run_past_separators h hs]
  simp [hs, ← List.head?_eq_getElem?, hrest]

theorem tokenAt_bracket (hs : s.rest = '[' :: rest) :
    (tokenAt '[').run s = (flowStart .flowSequence).run s := by
  rw [tokenAt, run_get_bind, run_past_separators h hs]
  rfl

theorem tokenAt_bracketEnd (hs : s.rest = ']' :: rest) :
    (tokenAt ']').run s = (flowEnd .flowSequenceEnd).run s := by
  rw [tokenAt, run_get_bind, run_past_separators h hs]
  rfl

theorem tokenAt_brace (hs : s.rest = '\x7b' :: rest) :
    (tokenAt '\x7b').run s = (flowStart .flowMapping).run s := by
  rw [tokenAt, run_get_bind, run_past_separators h hs]
  rfl

theorem tokenAt_braceEnd (hs : s.rest = '\x7d' :: rest) :
    (tokenAt '\x7d').run s = (flowEnd .flowMappingEnd).run s := by
  rw [tokenAt, run_get_bind, run_past_separators h hs]
  rfl

theorem tokenAt_quote {quote : Char} (hquote : quote = '\'' ∨ quote = '"')
    (hs : s.rest = quote :: rest) :
    (tokenAt quote).run s
      = (keyLike do
          forward 1
          return .scalar (String.ofList (← quotedText quote (s.rest.length + 1))) false).run s := by
  rw [tokenAt, run_get_bind, run_past_separators h hs]
  rcases hquote with rfl | rfl <;> rfl

theorem tokenAt_comma (hs : s.rest = ',' :: rest) : (tokenAt ',').run s = flowEntry.run s := by
  rw [tokenAt, run_get_bind, run_past_separators h hs]
  rfl

theorem tokenAt_plain {c : Char} (hc : BeginsPlain c rest.head?)
    (hflow : s.flow = 0 ∨ c ≠ '?' ∧ c ≠ ':') (hs : s.rest = c :: rest) :
    (tokenAt c).run s
      = (keyLike do
          return .scalar (String.ofList (← plainText (s.indent + 1) [] (s.rest.length + 1)))
            true).run s := by
  have hne : ∀ d ∈ "#,[]\x7b\x7d&*!|>'\"%@`".toList, (c == d) = false := fun d hd => by
    rw [beq_eq_false_iff_ne]
    rintro rfl
    exact hc.unmarked hd
  have hflow' : (s.flow != 0) = false ∨ c ≠ '?' ∧ c ≠ ':' := hflow.imp_left fun h => by simp [h]
  have hflowing : ∀ d, d = '?' ∨ d = ':' →
      (c == d && (s.flow != 0 || endsToken rest.head?)) = false := by
    intro d hd
    by_cases hcd : c = d
    · subst hcd
      rcases hflow' with hflow' | ⟨hquestion, hcolon⟩
      · simp [hflow', hc.follows (.inr hd)]
      · rcases hd with hd | hd
        · exact absurd hd hquestion
        · exact absurd hd hcolon
    · simp [hcd]
  have hnext : s.rest[1]? = rest.head? := by rw [hs, List.head?_eq_getElem?]; rfl
  have hhyphen : (c == '-' && endsToken rest.head?) = false := by
    by_cases hcd : c = '-'
    · simp [hc.follows (.inl hcd)]
    · simp [hcd]
  rw [tokenAt, run_get_bind, run_past_separators h hs]
  simp only [hnext, hne '[' (by decide), hne '\x7b' (by decide), hne ']' (by decide),
    hne '\x7d' (by decide), hne ',' (by decide), hne '*' (by decide), hne '&' (by decide),
    hne '!' (by decide), hne '|' (by decide), hne '>' (by decide), hne '\'' (by decide),
    hne '"' (by decide), hhyphen, hflowing '?' (.inl rfl), hflowing ':' (.inr rfl),
    hc.startsPlain hflow', Bool.or_self, Bool.false_and, Bool.false_eq_true, if_false, if_true]

end Kinds

end Yaml

end FormDesigner
