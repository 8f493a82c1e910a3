import Mathlib
import FormDesigner.Proofs.Stateful
import FormDesigner.Yaml.Token

/-!
# What can go wrong with the tokens of YAML

Whatever a text holds, its tokens are found unless it is malformed, has a version of too many digits
or names a character that there is none of. Such faults are faults of values, but that of a code that
is too large even for a machine number is not.
-/

namespace FormDesigner

namespace Yaml

open Stateful

/-- The number that hexadecimal digits write. -/
def codeOf (vs : List Nat) : Nat := vs.foldl (fun n v => n * 16 + v) 0

/-- An escape `\U` in the text names a code that does not fit into 31 bits. -/
def HasLargeCode (text : List Char) : Prop :=
  ∃ ds vs, '\\' :: 'U' :: ds <:+: text ∧ ds.length = 8 ∧ ds.mapM Json.hexValue? = some vs ∧
    0x80000000 ≤ codeOf vs

/-- An escape `\U` in the text names a code beyond those of all characters. -/
def HasUnassignedCode (text : List Char) : Prop :=
  ∃ ds vs, '\\' :: 'U' :: ds <:+: text ∧ ds.length = 8 ∧ ds.mapM Json.hexValue? = some vs ∧
    0x110000 ≤ codeOf vs

/-- Somewhere in the text stand so many digits that they are not read as a number. -/
def HasLongNumber (text : List Char) : Prop :=
  ∃ ds, ds <:+: text ∧ ds.all Char.isDigit = true ∧ maxIntegerDigits < ds.length

/-- What stops the scanning of a text. -/
inductive IsScanFailure (text : List Char) : Failure → Prop
  | malformed : IsScanFailure text malformed
  | version {n : Nat} (long : HasLongNumber text) : IsScanFailure text (.integerDigitLimit n)
  | character (unassigned : HasUnassignedCode text) :
      IsScanFailure text (.fault .value "chr() arg not in range(0x110000)")
  | code (large : HasLargeCode text) : IsScanFailure text (.fault .overflow "")

/-- What a token tells of its text: a tag needs an exclamation mark, and a scalar without quotes
does not end with a line break. -/
def Token.IsOf (text : List Char) : Token → Prop
  | .tag _ _ => '!' ∈ text
  | .scalar t true => t.toList.getLast? ≠ some '\n'
  | _ => True

/-- Scanning has come to some place of a text. -/
structure Scan.IsOf (text : List Char) (s : Scan) : Prop where
  rest : s.rest <:+ text
  tokens : ∀ t ∈ s.tokens, t.IsOf text

/-- A scanner goes on through a text. -/
abbrev Scans {α : Type} (text : List Char) (x : Scanner α) (P : α → Prop) : Prop :=
  Keeps (IsScanFailure text) (Scan.IsOf text) x P

variable {text : List Char} {s : Scan} {α β : Type} {P : α → Prop}

theorem scans_fail : Scans text (fail : Scanner α) P := keeps_throw .malformed

/-- A check that scanning does not survive. -/
theorem scans_unless {c : Prop} [Decidable c] {f : β → Scanner α} {x : Scanner α}
    (hx : Scans text x P) : Scans text (if c then fail >>= f else x) P :=
  .ite (fun _ => scans_fail.bind fun _ h => False.elim h) fun _ => hx

theorem Scan.IsOf.step (h : s.IsOf text) : s.step.IsOf text := by
  unfold Scan.step
  split
  · exact h
  · next c rest heq =>
      have hrest : rest <:+ text := (List.suffix_cons c rest).trans (heq ▸ h.rest)
      split
      · exact ⟨hrest, h.tokens⟩
      · exact ⟨hrest, h.tokens⟩

theorem peek_scans (n : Nat) : Scans text (peek n) fun c => ∀ d, c = some d → d ∈ text :=
  keeps_get.bind fun _ hs => keeps_pure fun _ hd =>
    hs.rest.subset (List.mem_of_getElem? hd)

theorem forward_scans (n : Nat) : Scans text (forward n) fun _ => True := by
  induction n with
  | zero => exact keeps_pure trivial
  | succ n ih => exact (keeps_modify fun _ hs => hs.step).next fun _ => ih

theorem takeWhile_scans (p : Char → Bool) :
    Scans text (takeWhile p) fun cs => cs <:+: text ∧ cs.all p = true :=
  keeps_get.bind fun _ hs => (forward_scans _).next fun _ =>
    keeps_pure ⟨(List.takeWhile_prefix p).isInfix.trans hs.rest.isInfix, List.all_takeWhile⟩

theorem skip_scans (c : Char) : Scans text (skip c) fun _ => True :=
  (takeWhile_scans _).next fun _ => keeps_pure trivial

theorem lineBreak_scans : Scans text lineBreak fun _ => True := by
  refine keeps_get.next fun s => ?_
  split
  · exact (forward_scans 2).next fun _ => keeps_pure trivial
  · refine .ite (fun _ => ?_) fun _ => .ite (fun _ => ?_) fun _ => keeps_pure trivial
    · exact (forward_scans 1).next fun _ => keeps_pure trivial
    · exact (forward_scans 1).next fun _ => keeps_pure trivial
  · exact keeps_pure trivial

theorem skipComment_scans : Scans text skipComment fun _ => True :=
  (peek_scans 0).next fun _ => .ite
    (fun _ => (takeWhile_scans _).next fun _ => keeps_pure trivial) fun _ => keeps_pure trivial

theorem atSeparator_scans (c : Char) : Scans text (atSeparator c) fun _ => True := by
  refine keeps_get.next fun s => ?_
  split
  · exact keeps_pure trivial
  · exact keeps_pure trivial

theorem atAnySeparator_scans : Scans text atAnySeparator fun _ => True :=
  (atSeparator_scans '-').next fun _ => (atSeparator_scans '.').next fun _ => keeps_pure trivial

/-- What changes neither the rest of the text nor the tokens. -/
theorem scans_modify {g : Scan → Scan} (hrest : ∀ s, (g s).rest = s.rest)
    (htokens : ∀ s, (g s).tokens = s.tokens) : Scans text (modify g) fun _ => True :=
  keeps_modify fun s hs => ⟨hrest s ▸ hs.rest, htokens s ▸ hs.tokens⟩

theorem push_scans {t : Token} (ht : t.IsOf text) : Scans text (push t) fun _ => True :=
  keeps_modify fun _ hs => ⟨hs.rest, fun u hu => by
    rcases Array.mem_push.1 hu with hu | rfl
    · exact hs.tokens u hu
    · exact ht⟩

/-! ### Keys and indentation -/

theorem dropStale_scans : Scans text dropStale fun _ => True :=
  keeps_get.next fun _ => .ite (fun _ => scans_fail) fun _ =>
    scans_modify (fun _ => rfl) fun _ => rfl

theorem dropPlace_scans : Scans text dropPlace fun _ => True := by
  refine keeps_get.next fun s => ?_
  split
  · exact keeps_pure trivial
  · exact .ite (fun _ => scans_fail) fun _ => scans_modify (fun _ => rfl) fun _ => rfl

theorem savePlace_scans : Scans text savePlace fun _ => True :=
  keeps_get.next fun _ => .ite
    (fun _ => dropPlace_scans.next fun _ => scans_modify (fun _ => rfl) fun _ => rfl)
    fun _ => keeps_pure trivial

theorem allowKey_scans (b : Bool) : Scans text (allowKey b) fun _ => True :=
  scans_modify (fun _ => rfl) fun _ => rfl

theorem closeDeeper_scans (column : Int) (outer : List Int) :
    Scans text (closeDeeper column outer) fun _ => True := by
  induction outer with
  | nil => exact keeps_pure trivial
  | cons o outer ih =>
      refine keeps_get.next fun _ => .ite (fun _ => ?_) fun _ => keeps_pure trivial
      exact (push_scans (t := .blockEnd) trivial).next fun _ =>
        .next (scans_modify (fun _ => rfl) fun _ => rfl) fun _ => ih

theorem unwind_scans (column : Int) : Scans text (unwind column) fun _ => True :=
  keeps_get.next fun _ => .ite (fun _ => closeDeeper_scans _ _) fun _ => keeps_pure trivial

theorem deepen_scans (column : Nat) : Scans text (deepen column) fun _ => True :=
  keeps_get.next fun _ => .ite
    (fun _ => .next (scans_modify (fun _ => rfl) fun _ => rfl) fun _ => keeps_pure trivial)
    fun _ => keeps_pure trivial

theorem skipToToken_scans (fuel : Nat) : Scans text (skipToToken fuel) fun _ => True := by
  induction fuel with
  | zero => exact keeps_pure trivial
  | succ fuel ih =>
      refine (skip_scans ' ').next fun _ => skipComment_scans.next fun _ =>
        lineBreak_scans.next fun _ => .ite (fun _ => keeps_pure trivial) fun _ => ?_
      exact keeps_get.next fun _ => .ite (fun _ => (allowKey_scans true).next fun _ => ih)
        fun _ => ih

/-! ### Directives, anchors and tags -/

theorem name_scans : Scans text name fun _ => True :=
  (takeWhile_scans _).next fun _ => .ite (fun _ => scans_fail) fun _ => keeps_pure trivial

theorem versionNumber_scans : Scans text versionNumber fun _ => True := by
  refine (takeWhile_scans _).bind fun ds hds => .ite (fun _ => scans_fail) fun _ => ?_
  unfold Text.boundedDigits
  by_cases hlong : maxIntegerDigits < ds.length
  · rw [if_pos hlong]
    exact keeps_throw (.version ⟨ds, hds.1, hds.2, hlong⟩)
  · rw [if_neg hlong]
    exact keeps_pure trivial

theorem hexOctet_scans : Scans text hexOctet fun _ => True := by
  refine keeps_get.next fun s => ?_
  split
  · split
    · exact (forward_scans 2).next fun _ => keeps_pure trivial
    · exact scans_fail
  · exact scans_fail

theorem escapedOctets_scans (fuel : Nat) : Scans text (escapedOctets fuel) fun _ => True := by
  induction fuel with
  | zero => exact keeps_pure trivial
  | succ fuel ih =>
      refine (peek_scans 0).next fun _ => .ite (fun _ => ?_) fun _ => keeps_pure trivial
      exact (forward_scans 1).next fun _ => hexOctet_scans.next fun _ =>
        ih.next fun _ => keeps_pure trivial

theorem tagText_scans (fuel : Nat) : Scans text (tagText fuel) fun _ => True := by
  induction fuel with
  | zero => exact keeps_pure trivial
  | succ fuel ih =>
      refine (takeWhile_scans _).next fun _ => (peek_scans 0).next fun _ =>
        .ite (fun _ => ?_) fun _ => keeps_pure trivial
      refine keeps_get.next fun _ => (escapedOctets_scans _).next fun octets => ?_
      split
      · exact scans_fail
      · exact ih.next fun _ => keeps_pure trivial

theorem filledTagText_scans : Scans text filledTagText fun _ => True :=
  keeps_get.next fun _ => (tagText_scans _).next fun _ => .ite (fun _ => scans_fail)
    fun _ => keeps_pure trivial

theorem tagHandle_scans : Scans text tagHandle fun _ => True := by
  refine (peek_scans 0).next fun _ => .ite (fun _ => scans_fail) fun _ => ?_
  refine (forward_scans 1).next fun _ => (peek_scans 0).next fun _ =>
    .ite (fun _ => keeps_pure trivial) fun _ => ?_
  refine (takeWhile_scans _).next fun _ => (peek_scans 0).next fun _ =>
    .ite (fun _ => scans_fail) fun _ => ?_
  exact (forward_scans 1).next fun _ => keeps_pure trivial

theorem directive_scans : Scans text directive fun _ => True := by
  refine (forward_scans 1).next fun _ => name_scans.next fun word => (peek_scans 0).next fun _ =>
    scans_unless ?_
  have ending : ∀ d : Directive, Scans text (do
      skip ' '
      skipComment
      if !endsLine (← peek 0) then fail
      let _ ← lineBreak
      return d) fun _ => True := fun d =>
    (skip_scans ' ').next fun _ => skipComment_scans.next fun _ => (peek_scans 0).next fun _ =>
      scans_unless (lineBreak_scans.next fun _ => keeps_pure trivial)
  refine .ite (fun _ => ?_) fun _ => .ite (fun _ => ?_) fun _ => ?_
  · refine (skip_scans ' ').next fun _ => versionNumber_scans.next fun _ =>
      (peek_scans 0).next fun _ => scans_unless ?_
    exact (forward_scans 1).next fun _ => versionNumber_scans.next fun _ =>
      (peek_scans 0).next fun _ => scans_unless (ending _)
  · refine (skip_scans ' ').next fun _ => tagHandle_scans.next fun _ =>
      (peek_scans 0).next fun _ => scans_unless ?_
    exact (skip_scans ' ').next fun _ => filledTagText_scans.next fun _ =>
      (peek_scans 0).next fun _ => scans_unless (ending _)
  · exact (takeWhile_scans _).next fun _ => ending _

theorem anchorName_scans : Scans text anchorName fun _ => True :=
  (forward_scans 1).next fun _ => name_scans.next fun _ => (peek_scans 0).next fun _ =>
    .ite (fun _ => keeps_pure trivial) fun _ => scans_fail

/-- A tag is scanned only after an exclamation mark. -/
theorem tag_scans (mark : '!' ∈ text) : Scans text tag (Token.IsOf text) := by
  have ending : ∀ handle rest, Scans text (do
      if endsWord (← peek 0) then return Token.tag handle rest else fail) (Token.IsOf text) :=
    fun handle rest => (peek_scans 0).next fun _ => .ite (fun _ => keeps_pure mark)
      fun _ => scans_fail
  refine (peek_scans 1).next fun _ => keeps_get.next fun _ => ?_
  refine .ite (fun _ => ?_) fun _ => .ite (fun _ => ?_) fun _ => .ite (fun _ => ?_) fun _ => ?_
  · refine (forward_scans 2).next fun _ => filledTagText_scans.next fun _ =>
      (peek_scans 0).next fun _ => scans_unless ?_
    exact (forward_scans 1).next fun _ => ending _ _
  · exact (forward_scans 1).next fun _ => ending _ _
  · exact tagHandle_scans.next fun _ => filledTagText_scans.next fun _ => ending _ _
  · exact (forward_scans 1).next fun _ => filledTagText_scans.next fun _ => ending _ _

/-! ### Scalars -/

theorem quotedBreaks_scans (fuel : Nat) : Scans text (quotedBreaks fuel) fun _ => True := by
  induction fuel with
  | zero => exact keeps_pure trivial
  | succ fuel ih =>
      refine atAnySeparator_scans.next fun _ => scans_unless ?_
      exact (takeWhile_scans _).next fun _ => lineBreak_scans.next fun _ =>
        .ite (fun _ => keeps_pure trivial) fun _ => ih.next fun _ => keeps_pure trivial

theorem quotedBlanks_scans : Scans text quotedBlanks fun _ => True := by
  refine (takeWhile_scans _).next fun _ => (peek_scans 0).next fun _ =>
    .ite (fun _ => scans_fail) fun _ => ?_
  exact lineBreak_scans.next fun _ => .ite (fun _ => keeps_pure trivial) fun _ =>
    keeps_get.next fun _ => (quotedBreaks_scans _).next fun _ => keeps_pure trivial

@[simp] theorem step_rest (s : Scan) : s.step.rest = s.rest.tail := by
  unfold Scan.step
  split
  · next heq => rw [heq, List.tail_nil]
  · next heq =>
      rw [heq, List.tail_cons]
      split <;> rfl

@[simp] theorem ends_peek {E : Failure → Prop} {n : Nat} {Q : Option Char → Scan → Prop} :
    Ends E (peek n) s Q ↔ Q s.rest[n]? s := Iff.rfl

@[simp] theorem ends_forward_one {E : Failure → Prop} {Q : Unit → Scan → Prop} :
    Ends E (forward 1) s Q ↔ Q () s.step := Iff.rfl

theorem codeOf_lt {vs : List Nat} (hvs : ∀ v ∈ vs, v < 16) : codeOf vs < 16 ^ vs.length := by
  induction vs using List.reverseRecOn with
  | nil => exact Nat.one_pos
  | append_singleton vs v ih =>
      have hinit := ih fun w hw => hvs w (List.mem_append_left _ hw)
      have hlast := hvs v (List.mem_append_right _ (List.mem_singleton_self v))
      rw [codeOf, List.foldl_append, List.length_append, List.length_singleton, Nat.pow_succ]
      change codeOf vs * 16 + v < _
      omega

theorem hexValue?_lt {c : Char} {v : Nat} (h : Json.hexValue? c = some v) : v < 16 := by
  unfold Json.hexValue? at h
  have hle : ∀ {d e : Char}, d ≤ e → d.toNat ≤ e.toNat := fun h => h
  have toNat_eq : ∀ {d : Char} {n : Nat}, some (d.toNat - n) = some v → d.toNat - n = v :=
    Option.some.inj
  split at h
  · next hc =>
      have := hle hc.2
      have := Option.some.inj h
      simp at *
      omega
  split at h
  · next hc =>
      have := hle hc.2
      have := Option.some.inj h
      simp at *
      omega
  split at h
  · next hc =>
      have := hle hc.2
      have := Option.some.inj h
      simp at *
      omega
  · cases h

theorem codeWidth?_cases {c : Char} {width : Nat} (h : codeWidth? c = some width) :
    width ≤ 4 ∨ c = 'U' ∧ width = 8 := by
  unfold codeWidth? at h
  simp only [List.lookup_cons, List.lookup_nil] at h
  split at h
  · exact .inl (by have := Option.some.inj h; omega)
  split at h
  · exact .inl (by have := Option.some.inj h; omega)
  split at h
  · next hc => exact .inr ⟨eq_of_beq hc, (Option.some.inj h).symm⟩
  · cases h

theorem hexValues_of_mapM {ds : List Char} {vs : List Nat}
    (h : ds.mapM Json.hexValue? = some vs) : vs.length = ds.length ∧ ∀ v ∈ vs, v < 16 := by
  induction ds generalizing vs with
  | nil =>
      obtain rfl := Option.some.inj h
      exact ⟨rfl, List.forall_mem_nil _⟩
  | cons d ds ih =>
      rw [List.mapM_cons] at h
      obtain ⟨v, hv, h⟩ := Option.bind_eq_some_iff.1 h
      obtain ⟨ws, hws, h⟩ := Option.bind_eq_some_iff.1 h
      obtain rfl := Option.some.inj h
      obtain ⟨hlength, hmem⟩ := ih hws
      exact ⟨congrArg (· + 1) hlength, List.forall_mem_cons.2 ⟨hexValue?_lt hv, hmem⟩⟩

/-- Only eight digits name a code of more than 16 bits. -/
theorem exists_code_of_width {c : Char} {width least : Nat} {ds : List Char} {vs : List Nat}
    (hc : codeWidth? c = some width) (hds : '\\' :: c :: ds <:+: text) (hlength : ds.length = width)
    (hvs : ds.mapM Json.hexValue? = some vs) (hleast : 16 ^ 4 ≤ least)
    (hlarge : least ≤ codeOf vs) :
    ∃ ds vs, '\\' :: 'U' :: ds <:+: text ∧ ds.length = 8 ∧ ds.mapM Json.hexValue? = some vs ∧
      least ≤ codeOf vs := by
  obtain ⟨hsize, hmem⟩ := hexValues_of_mapM hvs
  rcases codeWidth?_cases hc with hwidth | ⟨rfl, rfl⟩
  · have hsmall := codeOf_lt hmem
    have hpow : 16 ^ vs.length ≤ 16 ^ 4 := Nat.pow_le_pow_right (by decide) (by omega)
    omega
  · exact ⟨ds, vs, hds, hlength, hvs, hlarge⟩

theorem codedChar_ends {width : Nat} {c : Char} (hc : codeWidth? c = some width)
    (hs : s.IsOf text) (hrest : '\\' :: c :: s.rest <:+ text) :
    Ends (IsScanFailure text) (codedChar width) s fun _ t => t.IsOf text := by
  unfold codedChar
  rw [ends_bind, ends_get]
  dsimp only
  split
  · exact IsScanFailure.malformed
  · next hlength =>
    split
    · exact IsScanFailure.malformed
    · next vs hvs =>
      rw [ends_bind]
      refine (forward_scans width s hs).mono fun _ t ⟨ht, _⟩ => ?_
      have hinfix : '\\' :: c :: s.rest.take width <:+: text := by
        refine List.IsInfix.trans ?_ hrest.isInfix
        have hprefix := s.rest.take_prefix width
        exact ((List.prefix_cons_inj _).2 ((List.prefix_cons_inj _).2 hprefix)).isInfix
      have hwidth : (s.rest.take width).length = width := by simpa using hlength
      unfold charOfCode
      split
      · exact ht
      · next hunassigned =>
        split
        · exact IsScanFailure.character
            (exists_code_of_width hc hinfix hwidth hvs (by decide) (Nat.not_lt.1 hunassigned))
        · next hlarge =>
          exact IsScanFailure.code
            (exists_code_of_width hc hinfix hwidth hvs (by decide) (Nat.not_lt.1 hlarge))

/-- What follows a backslash. -/
theorem backslashed_ends (hs : s.IsOf text) (hrest : '\\' :: s.rest <:+ text) :
    Ends (IsScanFailure text) backslashed s fun _ t => t.IsOf text := by
  unfold backslashed
  rw [ends_bind, ends_peek]
  split
  · exact IsScanFailure.malformed
  · next c hc =>
    split
    · exact hs.step
    · next width _ hwidth =>
      rw [ends_bind, ends_forward_one, ends_bind]
      have hcons : s.rest = c :: s.step.rest := by
        rw [step_rest]
        cases hcs : s.rest with
        | nil => simp [hcs] at hc
        | cons d ds => simpa [hcs] using hc
      exact (codedChar_ends hwidth hs.step (hcons ▸ hrest)).mono fun _ t ht => ht
    · have hbreaks : Scans text (if isBreak c then do
          let _ ← lineBreak
          quotedBreaks ((← get).rest.length + 1)
          else fail) fun _ => True :=
        .ite (fun _ => lineBreak_scans.next fun _ => keeps_get.next fun _ => quotedBreaks_scans _)
          fun _ => scans_fail
      exact (hbreaks s hs).mono fun _ t ht => ht.1

theorem quotedText_scans (quote : Char) (fuel : Nat) :
    Scans text (quotedText quote fuel) fun _ => True := by
  induction fuel with
  | zero => exact scans_fail
  | succ fuel ih =>
      have more : ∀ f : List Char → List Char, Scans text (do
          return f (← quotedText quote fuel)) fun _ => True := fun f =>
        ih.next fun _ => keeps_pure trivial
      refine (takeWhile_scans _).next fun cs => ?_
      -- what follows a backslash is read from the state that has been looked at
      intro s hs
      rw [ends_bind, ends_get]
      split
      · exact scans_fail s hs
      · next c rest heq =>
        have hfrom : '\\' :: s.step.rest <:+ text ∨ c ≠ '\\' := by
          by_cases hc : c = '\\'
          · left
            rw [step_rest, heq, List.tail_cons, ← hc, ← heq]
            exact hs.rest
          · exact .inr hc
        split
        · refine (Keeps.ite (fun _ => ?_) fun _ => ?_ : Scans text _ fun _ => True) s hs
          · exact (forward_scans 2).next fun _ => more _
          · exact (forward_scans 1).next fun _ => keeps_pure trivial
        · split
          · next hbackslash =>
            rw [ends_bind, ends_forward_one, ends_bind]
            have hc : c = '\\' := by simp at hbackslash; exact hbackslash.1
            refine (backslashed_ends hs.step (hfrom.resolve_right fun h => h hc)).mono ?_
            exact fun ds t ht => more _ t ht
          · refine (Keeps.ite (fun _ => ?_) fun _ => ?_ : Scans text _ fun _ => True) s hs
            · exact (forward_scans 1).next fun _ => more _
            · exact quotedBlanks_scans.next fun _ => more _

theorem plainBreaks_scans (fuel : Nat) : Scans text (plainBreaks fuel) fun _ => True := by
  induction fuel with
  | zero => exact keeps_pure trivial
  | succ fuel ih =>
      refine atAnySeparator_scans.next fun _ => .ite (fun _ => keeps_pure trivial) fun _ => ?_
      exact (skip_scans ' ').next fun _ => lineBreak_scans.next fun _ =>
        .ite (fun _ => keeps_pure trivial) fun _ => ih.next fun _ => keeps_pure trivial

theorem plainBlanks_scans : Scans text plainBlanks fun _ => True := by
  refine (takeWhile_scans _).next fun _ => lineBreak_scans.next fun _ =>
    .ite (fun _ => keeps_pure trivial) fun _ => ?_
  exact (allowKey_scans true).next fun _ => keeps_get.next fun _ =>
    (plainBreaks_scans _).next fun _ => keeps_pure trivial

/-- A word ends with a character that ends no word. -/
theorem plainLength_last {inFlow : Bool} {cs : List Char} (h : plainLength inFlow cs ≠ 0) :
    ∃ c, (cs.take (plainLength inFlow cs)).getLast? = some c ∧ endsToken (some c) = false := by
  induction cs with
  | nil => exact absurd rfl h
  | cons c cs ih =>
      rw [plainLength] at h ⊢
      split at h
      · exact absurd rfl h
      next hc =>
      split at h
      · exact absurd rfl h
      next hcolon =>
      rw [if_neg hc, if_neg hcolon, Nat.add_comm, List.take_succ_cons]
      by_cases hn : plainLength inFlow cs = 0
      · rw [hn]
        exact ⟨c, rfl, by simp_all⟩
      · obtain ⟨d, hd, hends⟩ := ih hn
        exact ⟨d, by rw [List.getLast?_cons, hd, Option.getD_some], hends⟩

theorem plainText_scans (indent : Int) (blanks : List Char) (fuel : Nat) :
    Scans text (plainText indent blanks fuel) fun cs => cs.getLast? ≠ some '\n' := by
  induction fuel generalizing blanks with
  | zero => exact keeps_pure nofun
  | succ fuel ih =>
      refine keeps_get.next fun s => .ite (fun _ => keeps_pure nofun) fun hn => ?_
      split at hn
      · simp at hn
      rw [if_neg ‹_›]
      obtain ⟨c, hlast, hc⟩ := plainLength_last (by simpa using hn)
      have hword : c ≠ '\n' := by
        rintro rfl
        revert hc
        decide
      refine (allowKey_scans false).next fun _ => (forward_scans _).next fun _ =>
        plainBlanks_scans.next fun _ => keeps_get.next fun _ => .ite (fun _ => keeps_pure ?_)
          fun _ => (ih _).bind fun more hmore => keeps_pure ?_
      · rw [List.getLast?_append, hlast]
        exact fun h => hword (Option.some.inj h)
      · rw [List.getLast?_append, List.getLast?_append, hlast]
        cases hend : more.getLast? with
        | none => exact fun h => hword (Option.some.inj h)
        | some d => exact fun h => hmore (hend.trans h)

theorem chomping?_scans : Scans text chomping? fun _ => True := by
  refine (peek_scans 0).next fun _ => ?_
  split
  · exact (forward_scans 1).next fun _ => keeps_pure trivial
  · exact (forward_scans 1).next fun _ => keeps_pure trivial
  · exact keeps_pure trivial

theorem increment?_scans : Scans text increment? fun _ => True := by
  refine (peek_scans 0).next fun _ => ?_
  split
  · refine .ite (fun _ => scans_unless ?_) fun _ => keeps_pure trivial
    exact (forward_scans 1).next fun _ => keeps_pure trivial
  · exact keeps_pure trivial

theorem blockIndicators_scans : Scans text blockIndicators fun _ => True := by
  have ending : ∀ r : Chomping × Option Nat, Scans text (do
      if endsWord (← peek 0) then return r else fail) fun _ => True := fun r =>
    (peek_scans 0).next fun _ => .ite (fun _ => keeps_pure trivial) fun _ => scans_fail
  refine chomping?_scans.next fun c => ?_
  split
  · exact increment?_scans.next fun _ => ending _
  · refine increment?_scans.next fun n => ?_
    split
    · exact chomping?_scans.next fun _ => ending _
    · exact ending _

theorem leadingBreaks_scans (deepest fuel : Nat) :
    Scans text (leadingBreaks deepest fuel) fun _ => True := by
  induction fuel generalizing deepest with
  | zero => exact keeps_pure trivial
  | succ fuel ih =>
      exact (skip_scans ' ').next fun _ => keeps_get.next fun _ => lineBreak_scans.next fun _ =>
        .ite (fun _ => keeps_pure trivial) fun _ => (ih _).next fun _ => keeps_pure trivial

theorem skipIndent_scans (indent : Nat) : Scans text (skipIndent indent) fun _ => True :=
  keeps_get.next fun _ => forward_scans _

theorem blockBreaks_scans (indent fuel : Nat) :
    Scans text (blockBreaks indent fuel) fun _ => True := by
  induction fuel with
  | zero => exact keeps_pure trivial
  | succ fuel ih =>
      exact (skipIndent_scans _).next fun _ => lineBreak_scans.next fun _ =>
        .ite (fun _ => keeps_pure trivial) fun _ => ih.next fun _ => keeps_pure trivial

theorem blockLines_scans (fold : Bool) (indent : Nat) (start breaks ending : List Char)
    (fuel : Nat) : Scans text (blockLines fold indent start breaks ending fuel) fun _ => True := by
  induction fuel generalizing start breaks ending with
  | zero => exact keeps_pure trivial
  | succ fuel ih =>
      refine keeps_get.next fun _ => .ite (fun _ => keeps_pure trivial) fun _ => ?_
      exact (takeWhile_scans _).next fun _ => lineBreak_scans.next fun _ => keeps_get.next fun _ =>
        (blockBreaks_scans _ _).next fun _ => keeps_get.next fun _ =>
          .ite (fun _ => keeps_pure trivial) fun _ => ih _ _ _

theorem blockText_scans (fold : Bool) : Scans text (blockText fold) fun _ => True := by
  refine (forward_scans 1).next fun _ => blockIndicators_scans.next fun r => ?_
  refine (skip_scans ' ').next fun _ => skipComment_scans.next fun _ =>
    (peek_scans 0).next fun _ => scans_unless (lineBreak_scans.next fun _ => ?_)
  refine keeps_get.next fun s => ?_
  dsimp only
  cases r.2 with
  | none =>
      exact (leadingBreaks_scans _ _).next fun _ => .next (keeps_pure (P := fun _ => True) trivial)
        fun _ => (blockLines_scans _ _ _ _ _ _).next fun _ => keeps_pure trivial
  | some n =>
      exact (blockBreaks_scans _ _).next fun _ => .next (keeps_pure (P := fun _ => True) trivial)
        fun _ => (blockLines_scans _ _ _ _ _ _).next fun _ => keeps_pure trivial

/-! ### One token after the other -/

theorem closeAll_scans : Scans text closeAll fun _ => True :=
  (unwind_scans _).next fun _ => dropPlace_scans.next fun _ => allowKey_scans false

theorem flowStart_scans {t : Token} (ht : t.IsOf text) :
    Scans text (flowStart t) fun _ => True :=
  savePlace_scans.next fun _ => .next (scans_modify (fun _ => rfl) fun _ => rfl) fun _ =>
    (forward_scans 1).next fun _ => push_scans ht

theorem flowEnd_scans {t : Token} (ht : t.IsOf text) : Scans text (flowEnd t) fun _ => True :=
  dropPlace_scans.next fun _ => keeps_get.next fun _ => scans_unless
    (.next (scans_modify (fun _ => rfl) fun _ => rfl) fun _ =>
      (forward_scans 1).next fun _ => push_scans ht)

theorem flowEntry_scans : Scans text flowEntry fun _ => True :=
  (allowKey_scans true).next fun _ => dropPlace_scans.next fun _ =>
    (forward_scans 1).next fun _ => push_scans (t := .flowEntry) trivial

theorem openBlock_scans {t : Token} (ht : t.IsOf text) :
    Scans text (openBlock t) fun _ => True :=
  keeps_get.next fun _ => .ite
    (fun _ => scans_unless ((deepen_scans _).next fun _ => .ite (fun _ => push_scans ht)
      fun _ => keeps_pure trivial))
    fun _ => keeps_pure trivial

theorem blockEntry_scans : Scans text blockEntry fun _ => True :=
  (openBlock_scans (t := .blockSequence) trivial).next fun _ => (allowKey_scans true).next fun _ =>
    dropPlace_scans.next fun _ => (forward_scans 1).next fun _ =>
      push_scans (t := .blockEntry) trivial

theorem explicitKey_scans : Scans text explicitKey fun _ => True :=
  (openBlock_scans (t := .blockMapping) trivial).next fun _ => keeps_get.next fun _ =>
    (allowKey_scans _).next fun _ => dropPlace_scans.next fun _ => (forward_scans 1).next fun _ =>
      push_scans (t := .key) trivial

theorem mem_of_mem_extract {t : Token} {ts : Array Token} {i j : Nat} (h : t ∈ ts.extract i j) :
    t ∈ ts := by
  obtain ⟨k, _, rfl⟩ := Array.mem_extract_iff_getElem.1 h
  exact Array.getElem_mem _

theorem valueMark_scans : Scans text valueMark fun _ => True := by
  have ending : Scans text (do
      forward 1
      push .value) fun _ => True :=
    (forward_scans 1).next fun _ => push_scans (t := .value) trivial
  refine keeps_get.next fun s => ?_
  split
  · next k _ =>
    refine .next (scans_modify (fun _ => rfl) fun _ => rfl) fun _ => ?_
    have inserting : ∀ opened : Bool, Scans text (modify fun s =>
        let before := s.tokens.extract 0 k.token
        let after := s.tokens.extract k.token s.tokens.size
        let added := if opened then #[Token.blockMapping, .key] else #[.key]
        { s with tokens := before ++ added ++ after, keyAllowed := false }) fun _ => True := by
      refine fun opened => keeps_modify fun s hs => ⟨hs.rest, fun t ht => ?_⟩
      simp only [Array.mem_append] at ht
      obtain (ht | ht) | ht := ht
      · exact hs.tokens t (mem_of_mem_extract ht)
      · have hadded : t = .blockMapping ∨ t = .key := by
          cases opened <;> simp at ht <;> simp [ht]
        rcases hadded with rfl | rfl <;> trivial
      · exact hs.tokens t (mem_of_mem_extract ht)
    exact .ite (fun _ => (deepen_scans _).next fun _ => (inserting _).next fun _ => ending)
      fun _ => (inserting _).next fun _ => ending
  · exact (openBlock_scans (t := .blockMapping) trivial).next fun _ => (allowKey_scans _).next fun _ =>
      dropPlace_scans.next fun _ => ending

theorem keyLike_scans {x : Scanner Token} (hx : Scans text x (Token.IsOf text)) :
    Scans text (keyLike x) fun _ => True :=
  savePlace_scans.next fun _ => (allowKey_scans false).next fun _ => hx.bind fun _ => push_scans

theorem tokenAt_scans {c : Char} (hc : c ∈ text) : Scans text (tokenAt c) fun _ => True := by
  refine keeps_get.next fun s => ?_
  refine .ite (fun _ => ?_) fun _ => (atSeparator_scans '-').next fun _ =>
    .ite (fun _ => ?_) fun _ => (atSeparator_scans '.').next fun _ => .ite (fun _ => ?_) fun _ => ?_
  · exact closeAll_scans.next fun _ => directive_scans.next fun d =>
      push_scans (t := .directive d) trivial
  · exact closeAll_scans.next fun _ => (forward_scans 3).next fun _ =>
      push_scans (t := .documentStart) trivial
  · exact closeAll_scans.next fun _ => (forward_scans 3).next fun _ =>
      push_scans (t := .documentEnd) trivial
  refine .ite (fun _ => flowStart_scans (t := .flowSequence) trivial) fun _ =>
    .ite (fun _ => flowStart_scans (t := .flowMapping) trivial) fun _ =>
    .ite (fun _ => flowEnd_scans (t := .flowSequenceEnd) trivial) fun _ =>
    .ite (fun _ => flowEnd_scans (t := .flowMappingEnd) trivial) fun _ =>
    .ite (fun _ => flowEntry_scans) fun _ => .ite (fun _ => blockEntry_scans) fun _ =>
    .ite (fun _ => explicitKey_scans) fun _ => .ite (fun _ => valueMark_scans) fun _ =>
    .ite (fun _ => ?_) fun _ => .ite (fun _ => ?_) fun _ => .ite (fun hmark => ?_) fun _ =>
    .ite (fun _ => ?_) fun _ => .ite (fun _ => ?_) fun _ => .ite (fun _ => ?_) fun _ => scans_fail
  · exact keyLike_scans (anchorName_scans.next fun a => keeps_pure (a := Token.alias a) trivial)
  · exact keyLike_scans (anchorName_scans.next fun a => keeps_pure (a := Token.anchor a) trivial)
  · exact keyLike_scans (tag_scans (eq_of_beq hmark ▸ hc))
  · exact (allowKey_scans true).next fun _ => dropPlace_scans.next fun _ =>
      (blockText_scans _).next fun t => push_scans (t := .scalar t false) trivial
  · exact keyLike_scans ((forward_scans 1).next fun _ => (quotedText_scans _ _).next fun cs =>
      keeps_pure (a := Token.scalar _ false) trivial)
  · refine keyLike_scans ((plainText_scans _ _ _).bind fun cs hcs => keeps_pure ?_)
    rw [Token.IsOf, String.toList_ofList]
    exact hcs

theorem tokensFrom_scans (fuel : Nat) : Scans text (tokensFrom fuel) fun _ => True := by
  induction fuel with
  | zero => exact scans_fail
  | succ fuel ih =>
      refine keeps_get.next fun _ => (skipToToken_scans _).next fun _ => dropStale_scans.next fun _ =>
        keeps_get.next fun _ => (unwind_scans _).next fun _ => (peek_scans 0).bind fun c hc => ?_
      split
      · exact (unwind_scans _).next fun _ => dropPlace_scans
      · exact (tokenAt_scans (hc _ rfl)).next fun _ => ih

theorem Scan.isOf_ofText (s : String) : (Scan.ofText s).IsOf s.toList :=
  ⟨List.suffix_rfl, fun t ht => absurd ht (Array.not_mem_empty t)⟩

/-- Scanning fails only as a text can make it fail, and finds only tokens of the text. -/
theorem tokens_spec (s : String) :
    Result.FailsOnly (IsScanFailure s.toList) (tokens s) ∧
      ∀ ts, tokens s = .ok ts → ∀ t ∈ ts, t.IsOf s.toList := by
  unfold tokens
  split
  · exact ⟨Result.failsOnly_error .malformed, fun ts h => by cases h⟩
  · dsimp only
    generalize hstart : (if (Scan.ofText s).rest.head? == some byteOrderMark then
      (Scan.ofText s).step else Scan.ofText s) = start
    have hof : start.IsOf s.toList := by
      rw [← hstart]
      split
      · exact (Scan.isOf_ofText s).step
      · exact Scan.isOf_ofText s
    have hends := tokensFrom_scans (start.rest.length + 2) start hof
    constructor
    · refine Result.FailsOnly.bind (fun e he => hends.error he) fun r _ => Result.failsOnly_ok _
    · intro ts hts t ht
      obtain ⟨⟨u, done⟩, hrun, hdone⟩ := Result.bind_eq_ok.1 hts
      obtain rfl := Except.ok.inj hdone
      exact (hends.ok hrun).1.tokens t (Array.mem_toList_iff.1 ht)

end Yaml

end FormDesigner
