import FormDesigner.Proofs.Yaml.Folding
import FormDesigner.Yaml.Token

/-!
# How scalars are spelled

A scalar that is no key is written plainly if it can be, else between single quotes, else between
double quotes. `Spells` says what may be written for it. Not every text survives that: between single
quotes a next line character is read as a line feed, and between double quotes a blank after an
escape may be lost to an indentation as wide as a line.
-/

namespace FormDesigner

namespace Yaml

/-! ### Characters of texts -/

/-- Characters that reading leaves alone. -/
def IsClean (c : Char) : Prop := isPrintable c = true ∧ c ≠ '\r'

theorem isClean_of_ascii {c : Char} (h : 0x20 ≤ c.toNat ∧ c.toNat ≤ 0x7e) : IsClean c := by
  refine ⟨by simp [isPrintable, h], ?_⟩
  rintro rfl
  exact absurd h.1 (by decide)

theorem isClean_feed : IsClean '\n' := ⟨rfl, by decide⟩

/-- What is written as it is in ASCII is so everywhere. -/
theorem isSpecial_of_not_special {unicode : Bool} {c : Char} (h : isSpecial unicode c = false) :
    isSpecial true c = false := by
  cases unicode with
  | true => exact h
  | false =>
      unfold isSpecial at h ⊢
      dsimp only at h ⊢
      split at h
      · next hc => rw [if_pos hc]
      · simp at h

theorem isClean_of_not_special {c : Char} (h : isSpecial true c = false) : IsClean c := by
  have hreturn : c ≠ '\r' := by
    rintro rfl
    exact absurd h (by decide)
  refine ⟨?_, hreturn⟩
  unfold isSpecial at h
  dsimp only at h
  split at h
  · next hc =>
      simp only [Bool.or_eq_true, beq_iff_eq, Bool.and_eq_true, decide_eq_true_eq] at hc
      rcases hc with rfl | hc
      · rfl
      · simp [isPrintable, hc]
  · simp only [Bool.not_eq_false', Bool.and_eq_true, Bool.or_eq_true, beq_iff_eq,
      decide_eq_true_eq] at h
    simp only [isPrintable, Bool.or_eq_true, Bool.and_eq_true, beq_iff_eq, decide_eq_true_eq]
    omega

theorem capitalHex_ascii (width n : Nat) :
    ∀ c ∈ capitalHex width n, 0x20 ≤ c.toNat ∧ c.toNat ≤ 0x7e := by
  induction width generalizing n with
  | zero => simp [capitalHex, Text.hexDigits]
  | succ width ih =>
      have hdigit : ∀ d < 16, 0x20 ≤ (Text.hexDigit d).toUpper.toNat ∧
          (Text.hexDigit d).toUpper.toNat ≤ 0x7e := by decide
      simp only [capitalHex, Text.hexDigits, List.map_append, List.forall_mem_append, List.map_cons,
        List.map_nil, List.forall_mem_singleton]
      exact ⟨ih (n / 16), hdigit _ (Nat.mod_lt _ (by decide))⟩

theorem escapeLetter?_ascii {c l : Char} (h : escapeLetter? c = some l) :
    0x20 ≤ l.toNat ∧ l.toNat ≤ 0x7e := by
  have hletters : ∀ p ∈ [(0x0, '0'), (0x7, 'a'), (0x8, 'b'), (0x9, 't'), (0xa, 'n'), (0xb, 'v'),
      (0xc, 'f'), (0xd, 'r'), (0x1b, 'e'), (0x22, '"'), (0x5c, '\\'), (0x85, 'N'), (0xa0, '_'),
      (0x2028, 'L'), (0x2029, 'P')], 0x20 ≤ p.2.toNat ∧ p.2.toNat ≤ 0x7e := by decide
  obtain ⟨before, after, hlist, -⟩ := List.lookup_eq_some_iff.1 h
  exact hletters (c.toNat, l) (hlist ▸ List.mem_append_right _ (.head _))

/-- An escape is a backslash and printable characters of ASCII. -/
theorem doubleEscape?_ascii {unicode : Bool} {c : Char} {e : String}
    (h : doubleEscape? unicode c = some e) :
    ∀ d ∈ e.toList, 0x20 ≤ d.toNat ∧ d.toNat ≤ 0x7e := by
  unfold doubleEscape? at h
  dsimp only at h
  split at h
  · cases h
  · obtain rfl := Option.some.inj h
    rw [String.toList_ofList, List.forall_mem_cons]
    refine ⟨by decide, ?_⟩
    split
    · next l hl => exact List.forall_mem_singleton.2 (escapeLetter?_ascii hl)
    · split
      · exact List.forall_mem_cons.2 ⟨by decide, capitalHex_ascii 2 _⟩
      split
      · exact List.forall_mem_cons.2 ⟨by decide, capitalHex_ascii 4 _⟩
      · exact List.forall_mem_cons.2 ⟨by decide, capitalHex_ascii 8 _⟩

/-- What stands for itself between double quotes is printable, no break and no mark. -/
structure IsDirect (c : Char) : Prop where
  clean : IsClean c
  quote : c ≠ '"'
  backslash : c ≠ '\\'
  tab : c ≠ '\t'
  break' : isBreak c = false

theorem isDirect_of_not_escaped {unicode : Bool} {c : Char} (h : doubleEscape? unicode c = none) :
    IsDirect c := by
  have hne : ∀ d : Char, (∀ b, (doubleEscape? b d).isSome = true) → c ≠ d := by
    rintro d hd rfl
    simpa [h] using hd unicode
  have hrange : (0x20 ≤ c.toNat ∧ c.toNat ≤ 0x7e) ∨ ((0xa0 ≤ c.toNat ∧ c.toNat ≤ 0xd7ff) ∨
      (0xe000 ≤ c.toNat ∧ c.toNat ≤ 0xfffd)) ∧ c.toNat ≠ 0x2028 ∧ c.toNat ≠ 0x2029 := by
    unfold doubleEscape? at h
    dsimp only at h
    split at h
    · next hdirect =>
        simp only [Bool.or_eq_true, Bool.and_eq_true, decide_eq_true_eq, bne_iff_ne] at hdirect
        omega
    · cases h
  have hbreak : isBreak c = false := by
    have hfeed : c ≠ '\n' := hne _ (by decide)
    have hreturn : c ≠ '\r' := hne _ (by decide)
    simp only [isBreak, isSeparator, Bool.or_eq_false_iff, beq_eq_false_iff_ne]
    refine ⟨⟨⟨hfeed, hreturn⟩, ?_⟩, ?_, ?_⟩ <;> omega
  refine ⟨⟨?_, hne _ (by decide)⟩, hne _ (by decide), hne _ (by decide), hne _ (by decide),
    hbreak⟩
  simp only [isPrintable, Bool.or_eq_true, Bool.and_eq_true, beq_iff_eq, decide_eq_true_eq]
  omega

/-! ### Traits -/

theorem traits_quotable_iff {unicode : Bool} {cs : List Char} :
    (traits unicode cs).quotable = true ↔
      hasPair (fun a b => isTextBreak a && b == ' ') cs = false ∧
        hasPair (fun a b => a == ' ' && isTextBreak b) cs = false ∧
          ∀ c ∈ cs, isSpecial unicode c = false := by
  cases cs with
  | nil => simp [traits, hasPair]
  | cons c cs => simp [traits, and_assoc]

/-- What can be written plainly outside brackets. -/
structure IsPlain (cs : List Char) : Prop where
  quotable : (traits true cs).quotable = true
  breaks : ∀ c ∈ cs, isTextBreak c = false
  head : cs.head? ≠ some ' '
  last : cs.getLast? ≠ some ' '
  marked : isMarked false cs = false

/-- Whether a text can be written plainly, inside brackets or outside. -/
def Traits.plainIn (t : Traits) (inFlow : Bool) : Bool :=
  if inFlow then t.plainInFlow else t.plainInBlock

/-- What means something outside brackets does so inside as well. -/
theorem isMarked_outside {inFlow : Bool} {cs : List Char} (h : isMarked inFlow cs = false) :
    isMarked false cs = false := by
  have hholds : ∀ {cs : List Char} {previous : Char}, holdsMark inFlow previous cs = false →
      holdsMark false previous cs = false := by
    intro cs
    induction cs with
    | nil => exact fun _ => rfl
    | cons c cs ih =>
        intro previous h
        simp only [holdsMark, Bool.or_eq_false_iff] at h ⊢
        exact ⟨⟨⟨Bool.false_and _, h.1.1.2⟩, h.1.2⟩, ih h.2⟩
  cases cs with
  | nil => exact h
  | cons c cs =>
      simp only [isMarked, startsMarked, Bool.or_eq_false_iff, Bool.and_eq_false_iff] at h ⊢
      obtain ⟨⟨hlines, ⟨hspecial, hmark⟩, hhyphen⟩, hrest⟩ := h
      exact ⟨⟨hlines, ⟨hspecial, hmark.imp_right fun h => ⟨trivial, h.2⟩⟩, hhyphen⟩, hholds hrest⟩

theorem traits_plainIn {unicode inFlow : Bool} {cs : List Char} (hcs : cs ≠ []) :
    (traits unicode cs).plainIn inFlow = true ↔
      IsPlain cs ∧ isMarked inFlow cs = false ∧ ∀ c ∈ cs, isSpecial unicode c = false := by
  have hquotable := @traits_quotable_iff unicode cs
  have hplain : (traits unicode cs).plainIn inFlow = ((traits unicode cs).quotable
      && !cs.any isTextBreak && !(cs.head?.any fun c => c == ' ' || isTextBreak c)
      && !(cs.getLast?.any fun c => c == ' ' || isTextBreak c) && !isMarked inFlow cs) := by
    cases cs with
    | nil => exact absurd rfl hcs
    | cons c cs => cases inFlow <;> rfl
  rw [hplain]
  constructor
  · intro h
    simp only [Bool.and_eq_true, Bool.not_eq_true', List.any_eq_false, Bool.not_eq_true] at h
    obtain ⟨⟨⟨⟨hq, hbreaks⟩, hhead⟩, hlast⟩, hmarked⟩ := h
    obtain ⟨hbreakFirst, hblankFirst, hspecial⟩ := hquotable.1 hq
    refine ⟨⟨traits_quotable_iff.2 ⟨hbreakFirst, hblankFirst, fun c hc =>
      isSpecial_of_not_special (hspecial c hc)⟩, hbreaks, ?_, ?_, isMarked_outside hmarked⟩,
      hmarked, hspecial⟩
    · rintro heq
      simp [heq] at hhead
    · rintro heq
      simp [heq] at hlast
  · rintro ⟨⟨hq, hbreaks, hhead, hlast, -⟩, hmarked, hspecial⟩
    obtain ⟨hbreakFirst, hblankFirst, -⟩ := traits_quotable_iff.1 hq
    have hhead' : (cs.head?.any fun c => c == ' ' || isTextBreak c) = false := by
      cases hc : cs.head? with
      | none => rfl
      | some c =>
          have hblank : c ≠ ' ' := fun h => hhead (h ▸ hc)
          simp [hblank, hbreaks c (List.mem_of_mem_head? hc)]
    have hlast' : (cs.getLast?.any fun c => c == ' ' || isTextBreak c) = false := by
      cases hc : cs.getLast? with
      | none => rfl
      | some c =>
          have hblank : c ≠ ' ' := fun h => hlast (h ▸ hc)
          simp [hblank, hbreaks c (List.mem_of_getLast? hc)]
    simpa [hquotable.2 ⟨hbreakFirst, hblankFirst, hspecial⟩, hhead', hlast', hmarked] using hbreaks

theorem traits_plainInBlock {cs : List Char} (hcs : cs ≠ []) :
    (traits true cs).plainInBlock = true ↔ IsPlain cs := by
  have hiff : (traits true cs).plainIn false = true ↔ _ := traits_plainIn hcs
  exact hiff.trans ⟨fun h => h.1, fun h => ⟨h, h.marked, (traits_quotable_iff.1 h.quotable).2.2⟩⟩

/-! ### Quiet texts -/

/-- Characters that mean nothing inside a plain text. -/
def isQuiet (c : Char) : Bool := c.isAlphanum || c == '-' || c == '+' || c == '.'

theorem toNat_of_isAlphanum {c : Char} (h : c.isAlphanum = true) :
    (0x30 ≤ c.toNat ∧ c.toNat ≤ 0x39) ∨ (0x41 ≤ c.toNat ∧ c.toNat ≤ 0x5a) ∨
      (0x61 ≤ c.toNat ∧ c.toNat ≤ 0x7a) := by
  simp only [Char.isAlphanum, Char.isAlpha, Char.isUpper, Char.isLower, Char.isDigit,
    Bool.or_eq_true, Bool.and_eq_true, decide_eq_true_eq, UInt32.le_iff_toNat_le, ge_iff_le] at h
  rcases h with (h | h) | h
  · exact .inr (.inl h)
  · exact .inr (.inr h)
  · exact .inl h

theorem toNat_of_isQuiet {c : Char} (h : isQuiet c = true) :
    0x2b ≤ c.toNat ∧ c.toNat ≤ 0x7a ∧ c.toNat ≠ 0x3a := by
  simp only [isQuiet, Bool.or_eq_true, beq_iff_eq] at h
  rcases h with ((h | rfl) | rfl) | rfl
  · have := toNat_of_isAlphanum h
    omega
  · decide
  · decide
  · decide

theorem ne_of_isQuiet {c d : Char} (h : isQuiet c = true) (hd : isQuiet d = false) : c ≠ d := by
  rintro rfl
  simp [h] at hd

theorem isGapChar_of_isQuiet {c : Char} (h : isQuiet c = true) : isGapChar c = false := by
  have hrange := toNat_of_isQuiet h
  simp only [isGapChar, isTextBreak, Bool.or_eq_false_iff, beq_eq_false_iff_ne]
  exact ⟨ne_of_isQuiet h rfl, ⟨⟨ne_of_isQuiet h rfl, by omega⟩, by omega⟩, by omega⟩

theorem contains_of_isQuiet {c : Char} (h : isQuiet c = true) {marks : List Char}
    (hmarks : ∀ d ∈ marks, isQuiet d = false) : marks.contains c = false := by
  rw [List.contains_eq_mem, decide_eq_false_iff_not]
  exact fun hmem => ne_of_isQuiet h (hmarks c hmem) rfl

theorem holdsMark_of_quiet {cs : List Char} (h : ∀ c ∈ cs, isQuiet c = true) (inFlow : Bool)
    (previous : Char) : holdsMark inFlow previous cs = false := by
  induction cs generalizing previous with
  | nil => rfl
  | cons c cs ih =>
      obtain ⟨hc, hcs⟩ := List.forall_mem_cons.1 h
      have hcolon : c ≠ ':' := ne_of_isQuiet hc rfl
      have hhash : c ≠ '#' := ne_of_isQuiet hc rfl
      have hmarks : ",?[]\x7b\x7d:".toList.contains c = false :=
        contains_of_isQuiet hc (by decide)
      rw [Yaml.holdsMark, hmarks, ih hcs]
      simp [hcolon, hhash]

/-- Quiet characters, of which the first is a digit or a letter, be it after a hyphen. -/
structure IsCalm (cs : List Char) : Prop where
  quiet : ∀ c ∈ cs, isQuiet c = true
  start : ∃ c rest, cs = c :: rest ∧
    (c.isAlphanum = true ∨ c = '-' ∧ ∃ d ∈ rest.head?, d.isAlphanum = true)

theorem ne_of_isAlphanum {c d : Char} (h : c.isAlphanum = true) (hd : d.isAlphanum = false) :
    c ≠ d := by
  rintro rfl
  simp [h] at hd

/-- A hyphen that quiet characters begin with stands before a digit or a letter. -/
theorem IsCalm.isMarked {cs : List Char} (hcs : IsCalm cs) (inFlow : Bool) :
    isMarked inFlow cs = false := by
  obtain ⟨h, c, rest, rfl, hstart⟩ := hcs
  have hquiet := h c (.head _)
  have hhyphen : c = '-' → ∃ d ds, rest = d :: ds ∧ d.isAlphanum = true := by
    rintro rfl
    rcases hstart with hstart | ⟨-, d, hd, halpha⟩
    · cases hstart
    · cases rest with
      | nil => cases hd
      | cons e ds =>
          obtain rfl := Option.some.inj hd
          exact ⟨e, ds, rfl, halpha⟩
  have hspecials : "#,[]\x7b\x7d&*!|>'\"%@`".toList.contains c = false :=
    contains_of_isQuiet hquiet (by decide)
  have hquestion : c ≠ '?' := ne_of_isQuiet hquiet rfl
  have hcolon : c ≠ ':' := ne_of_isQuiet hquiet rfl
  have hentry : (c == '-' && endsSpacing rest.head?) = false := by
    by_cases hc : c = '-'
    · obtain ⟨d, ds, rfl, hd⟩ := hhyphen hc
      have hgap := isGapChar_of_isQuiet (h d (.tail _ (.head _)))
      simp only [isGapChar, Bool.or_eq_false_iff] at hgap
      have htab := ne_of_isAlphanum hd (rfl : '\t'.isAlphanum = false)
      have hreturn := ne_of_isAlphanum hd (rfl : '\r'.isAlphanum = false)
      simp [endsSpacing, isSpacing, hgap, htab, hreturn]
    · simp [hc]
  have hstarts : startsMarked inFlow (c :: rest) = false := by
    simp only [startsMarked, hspecials, beq_eq_false_iff_ne.2 hquestion,
      beq_eq_false_iff_ne.2 hcolon, hentry, Bool.or_self, Bool.false_and]
  have hdashes : startsWith "---".toList (c :: rest) = false := by
    by_cases hc : c = '-'
    · obtain ⟨d, ds, rfl, hd⟩ := hhyphen hc
      simp [startsWith, ne_of_isAlphanum hd (rfl : '-'.isAlphanum = false)]
    · simp [startsWith, hc]
  have hdots : startsWith "...".toList (c :: rest) = false := by
    have hdot : c ≠ '.' := by
      rintro rfl
      rcases hstart with hstart | ⟨hstart, -⟩ <;> cases hstart
    simp [startsWith, hdot]
  have hholds := holdsMark_of_quiet (fun d hd => h d (.tail _ hd)) inFlow c
  simp only [Yaml.isMarked, hdashes, hdots, hstarts, hholds, Bool.or_self]

theorem hasPair_of_gapless {p : Char → Char → Bool}
    (hp : ∀ a b, isGapChar a = false → p a b = false) {cs : List Char}
    (hcs : ∀ c ∈ cs, isGapChar c = false) : hasPair p cs = false := by
  induction cs with
  | nil => rfl
  | cons c cs ih =>
      obtain ⟨hc, hcs⟩ := List.forall_mem_cons.1 hcs
      exact hasPair_cons_eq_false_iff.2 ⟨fun d _ => hp c d hc, ih hcs⟩

namespace IsCalm

variable {cs : List Char} (h : IsCalm cs)

include h

theorem ne_nil : cs ≠ [] := by
  obtain ⟨c, rest, rfl, -⟩ := h.start
  exact List.cons_ne_nil _ _

theorem not_special (unicode : Bool) : ∀ c ∈ cs, isSpecial unicode c = false := fun c hc => by
  have := toNat_of_isQuiet (h.quiet c hc)
  have hrange : 0x20 ≤ c.toNat ∧ c.toNat ≤ 0x7e := by omega
  simp [isSpecial, hrange]

theorem isPlain : IsPlain cs := by
  have hgap : ∀ c ∈ cs, isGapChar c = false := fun c hc => isGapChar_of_isQuiet (h.quiet c hc)
  have hblank : ' ' ∉ cs := fun hc => absurd (hgap _ hc) (by decide)
  have hbreak : ∀ c ∈ cs, isTextBreak c = false := fun c hc =>
    (Bool.or_eq_false_iff.1 (hgap c hc)).2
  have hbreakFirst : hasPair (fun a b => isTextBreak a && b == ' ') cs = false :=
    hasPair_of_gapless (fun a b ha => by simp [(Bool.or_eq_false_iff.1 ha).2]) hgap
  have hblankFirst : hasPair (fun a b => a == ' ' && isTextBreak b) cs = false :=
    hasPair_of_gapless (fun a b ha => by simp [(Bool.or_eq_false_iff.1 ha).1]) hgap
  exact ⟨traits_quotable_iff.2 ⟨hbreakFirst, hblankFirst, h.not_special true⟩, hbreak,
    fun hc => hblank (List.mem_of_mem_head? hc), fun hc => hblank (List.mem_of_getLast? hc),
    h.isMarked false⟩

/-- A calm text is written plainly everywhere. -/
theorem plainIn (unicode inFlow : Bool) : (traits unicode cs).plainIn inFlow = true :=
  (traits_plainIn h.ne_nil).2 ⟨h.isPlain, h.isMarked inFlow, h.not_special unicode⟩

end IsCalm

/-! ### Leaves -/

/-- A line break that is read as another one. -/
def nextLine : Char := Char.ofNat 0x85

namespace Leaf

/-- How a leaf is quoted where it is no key. -/
def quotesIn (l : Leaf) (unicode inFlow : Bool) : Quoting := l.quoting unicode ⟨inFlow, false, false⟩

/-- How a leaf is quoted outside brackets where it is no key. -/
def quotes (l : Leaf) : Quoting := l.quoting true ⟨false, false, false⟩

/-- Its text is not lost where its lines are indented by `n`. -/
def Survives (l : Leaf) (n : Nat) : Prop :=
  match l.quotes with
  | .single => nextLine ∉ l.text.toList
  | .double => n < bestWidth ∨ hasPair escapesBefore l.text.toList = false
  | _ => True

theorem Survives.narrow {l : Leaf} {n : Nat} (h : l.Survives n) (hl : l.quotes = .double) :
    n < bestWidth ∨
      hasPair (fun a b => (doubleEscape? true a).isSome && b == ' ') l.text.toList = false := by
  rw [Survives, hl] at h
  exact h

/-- What stands on the lines of its parent, and needs no tag. -/
structure IsSimpleIn (l : Leaf) (unicode inFlow : Bool) : Prop where
  block : l.block = false
  tag : l.quotesIn unicode inFlow ≠ .plain → l.tag = .text
  filled : l.quotesIn unicode inFlow = .plain → l.text ≠ ""

/-- What is simple outside brackets. -/
abbrev IsSimple (l : Leaf) : Prop := l.IsSimpleIn true false

variable {l : Leaf} {unicode inFlow : Bool} {n : Nat} {cs : List Char}

theorem quotesIn_of_not_block (h : l.block = false) :
    l.quotesIn unicode inFlow =
      if l.readsBack = true ∧ (traits unicode l.text.toList).plainIn inFlow = true then .plain
      else if (traits unicode l.text.toList).quotable = true then .single else .double := by
  simp only [quotesIn, quoting, h, Bool.not_false, Bool.true_and, Bool.false_and, Bool.and_true,
    Bool.and_eq_true, Bool.false_eq_true, if_false]
  rfl

namespace IsSimpleIn

theorem readsBack (h : l.IsSimpleIn unicode inFlow) (hl : l.quotesIn unicode inFlow = .plain) :
    l.readsBack = true := by
  rw [quotesIn_of_not_block h.block] at hl
  split at hl
  · next h => exact h.1
  · split at hl <;> cases hl

theorem plainIn (h : l.IsSimpleIn unicode inFlow) (hl : l.quotesIn unicode inFlow = .plain) :
    IsPlain l.text.toList ∧ isMarked inFlow l.text.toList = false ∧
      ∀ c ∈ l.text.toList, isSpecial unicode c = false := by
  have hne : l.text.toList ≠ [] := fun hnil => h.filled hl (String.toList_eq_nil_iff.1 hnil)
  rw [quotesIn_of_not_block h.block] at hl
  split at hl
  · next h => exact (traits_plainIn hne).1 h.2
  · split at hl <;> cases hl

theorem isPlain (h : l.IsSimpleIn unicode inFlow) (hl : l.quotesIn unicode inFlow = .plain) :
    IsPlain l.text.toList := (h.plainIn hl).1

/-- What is written without escapes needs none. -/
theorem quotable (h : l.IsSimpleIn unicode inFlow) (hl : l.quotesIn unicode inFlow ≠ .double) :
    (traits unicode l.text.toList).quotable = true := by
  rw [quotesIn_of_not_block h.block] at hl
  split at hl
  · next hplain =>
      by_cases hne : l.text.toList = []
      · rw [hne]
        rfl
      · obtain ⟨hplain, -, hspecial⟩ := (traits_plainIn hne).1 hplain.2
        obtain ⟨hbreakFirst, hblankFirst, -⟩ := traits_quotable_iff.1 hplain.quotable
        exact traits_quotable_iff.2 ⟨hbreakFirst, hblankFirst, hspecial⟩
  · split at hl
    · assumption
    · exact absurd rfl hl

theorem quotes_ne_literal (h : l.IsSimpleIn unicode inFlow) :
    l.quotesIn unicode inFlow ≠ .literal := by
  rw [quotesIn_of_not_block h.block]
  split
  · exact Quoting.noConfusion
  · split <;> exact Quoting.noConfusion

end IsSimpleIn

end Leaf

/-- What may be written for a text in some way of quoting, on lines that are indented by `n`. -/
inductive Spells (unicode : Bool) (n : Nat) (text : List Char) : Quoting → List Char → Prop
  | plain {cs : List Char} (lines : Folded List.singleton n text cs) :
      Spells unicode n text .plain cs
  | single {cs : List Char} (lines : Folded doubled n text cs) :
      Spells unicode n text .single ('\'' :: cs ++ ['\''])
  | double {cs : List Char} (lines : Escaped unicode n text cs) :
      Spells unicode n text .double ('"' :: cs ++ ['"'])

variable {unicode : Bool} {n : Nat}

theorem Spells.clean {text cs : List Char} {q : Quoting} (h : Spells unicode n text q cs)
    (hspecial : q ≠ .double → ∀ c ∈ text, isSpecial unicode c = false) : ∀ c ∈ cs, IsClean c := by
  have hblank : IsClean ' ' := isClean_of_ascii (by decide)
  have htext : q ≠ .double → ∀ c ∈ text, IsClean c := fun hq c hc =>
    isClean_of_not_special (isSpecial_of_not_special (hspecial hq c hc))
  cases h with
  | plain lines =>
      refine lines.mem hblank isClean_feed fun c hc => ?_
      have := htext nofun c hc
      exact ⟨this, List.forall_mem_singleton.2 this⟩
  | single lines =>
      have hmark : IsClean '\'' := isClean_of_ascii (by decide)
      refine List.forall_mem_append.2 ⟨List.forall_mem_cons.2 ⟨hmark, ?_⟩, by simpa using hmark⟩
      refine lines.mem hblank isClean_feed fun c hc => ?_
      have := htext nofun c hc
      refine ⟨this, ?_⟩
      unfold doubled
      split
      · simpa using hmark
      · simpa using this
  | double lines =>
      have hmark : IsClean '"' := isClean_of_ascii (by decide)
      refine List.forall_mem_append.2 ⟨List.forall_mem_cons.2 ⟨hmark, ?_⟩, by simpa using hmark⟩
      exact lines.mem hblank isClean_feed (isClean_of_ascii (by decide)) fun c _ =>
        ⟨fun h => (isDirect_of_not_escaped h).clean,
          fun e he d hd => isClean_of_ascii (doubleEscape?_ascii he d hd)⟩

section Putting

variable {l : Leaf} {inFlow : Bool} {s : Sheet}

theorem Leaf.IsSimpleIn.isPieced (hl : l.IsSimpleIn unicode inFlow)
    (h : l.quotesIn unicode inFlow ≠ .double) : IsPieced (piecesOf l.text.toList) := by
  obtain ⟨hbreakFirst, hblankFirst, -⟩ := traits_quotable_iff.1 (hl.quotable h)
  exact piecesOf_isPieced hbreakFirst hblankFirst

theorem Leaf.IsSimpleIn.putPlain_spells (hl : l.IsSimpleIn unicode inFlow)
    (hq : l.quotesIn unicode inFlow = .plain) (hn : s.indent.getD 0 = n) :
    ∃ cs, Spells unicode n l.text.toList .plain cs ∧
      s.Adds ((if s.blank then [] else [' ']) ++ cs)
        (putPlain true (if s.blank then s else s.add " ").settle (piecesOf l.text.toList)) ∧
      (putPlain true (if s.blank then s else s.add " ").settle (piecesOf l.text.toList)).Busy := by
  have hspace : s.Adds (if s.blank then [] else [' ']) (if s.blank then s else s.add " ").settle := by
    split
    · exact ⟨(Sheet.Adds.refl s).chars, rfl⟩
    · exact ⟨(s.add_adds " ").chars, (s.add_adds " ").indent⟩
  obtain ⟨cs, hcs, hadds, hbusy⟩ := putPlain_folded (hl.isPieced (by simp [hq]))
    (by simpa using (hl.isPlain hq).breaks) (hspace.indent_getD hn) (Sheet.settle_busy _) true
  rw [charsOf_piecesOf] at hcs
  exact ⟨cs, .plain hcs, hspace.trans hadds, hbusy⟩

/-- An opening quote stands behind a blank. -/
theorem Sheet.quote_adds (s : Sheet) (quote : String) :
    s.Adds ((if s.blank then [] else [' ']) ++ quote.toList) (s.mark quote true false false) := by
  simpa using s.mark_adds quote true false false

theorem Leaf.IsSimpleIn.putSingle_spells (hl : l.IsSimpleIn unicode inFlow)
    (hq : l.quotesIn unicode inFlow = .single) (hn : s.indent.getD 0 = n) :
    ∃ cs, Spells unicode n l.text.toList .single cs ∧
      s.Adds ((if s.blank then [] else [' ']) ++ cs)
        ((putSingle true true (s.mark "'" true false false) (piecesOf l.text.toList)).mark
          "'" false false false) ∧
      ((putSingle true true (s.mark "'" true false false) (piecesOf l.text.toList)).mark
        "'" false false false).Busy := by
  have hopen := s.quote_adds "'"
  have hfresh : (s.mark "'" true false false).fresh = false := Bool.and_false _
  obtain ⟨cs, hcs, hadds⟩ := putSingle_folded (hl.isPieced (by simp [hq])) (hopen.indent_getD hn)
    (.inl hfresh) true true
  rw [charsOf_piecesOf] at hcs
  obtain ⟨hclose, hbusy⟩ := Sheet.mark_close_adds
    (putSingle true true (s.mark "'" true false false) (piecesOf l.text.toList)) "'"
  exact ⟨_, .single hcs, by simpa using (hopen.trans hadds).trans hclose, hbusy⟩

theorem putDouble_spells {text : List Char}
    (hnarrow : n < bestWidth ∨
      hasPair (fun a b => (doubleEscape? unicode a).isSome && b == ' ') text = false)
    (hn : s.indent.getD 0 = n) :
    ∃ cs, Spells unicode n text .double cs ∧
      s.Adds ((if s.blank then [] else [' ']) ++ cs)
        ((putDouble unicode true (s.mark "\"" true false false) true [] text).mark
          "\"" false false false) ∧
      ((putDouble unicode true (s.mark "\"" true false false) true [] text).mark
        "\"" false false false).Busy := by
  have hopen := s.quote_adds "\""
  have hbusy : (s.mark "\"" true false false).Busy := ⟨rfl, Bool.and_false _⟩
  obtain ⟨cs, hcs, hadds, -⟩ :=
    putDouble_escaped hnarrow (hopen.indent_getD hn) hbusy true true []
  obtain ⟨hclose, hbusy'⟩ := Sheet.mark_close_adds
    (putDouble unicode true (s.mark "\"" true false false) true [] text) "\""
  exact ⟨_, .double hcs, by simpa using (hopen.trans hadds).trans hclose, hbusy'⟩

/-- A leaf is written on lines that are indented one level deeper, after a blank if there is none
yet. -/
theorem Leaf.put_spells (hl : l.IsSimpleIn unicode inFlow)
    (hnarrow : l.quotesIn unicode inFlow = .double → n < bestWidth ∨
      hasPair (fun a b => (doubleEscape? unicode a).isSome && b == ' ') l.text.toList = false)
    (hn : (s.deeper true true).indent.getD 0 = n) (entry : Bool) :
    ∃ cs, Spells unicode n l.text.toList (l.quotesIn unicode inFlow) cs ∧
      s.Adds ((if s.blank then [] else [' ']) ++ cs) (l.put unicode ⟨inFlow, entry, false⟩ s) ∧
        (l.put unicode ⟨inFlow, entry, false⟩ s).Busy := by
  have hquoting : l.quoting unicode ⟨inFlow, entry, false⟩ = l.quotesIn unicode inFlow := rfl
  have huntagged : l.quotesIn unicode inFlow ≠ .plain → (l.tag != .text) = false := fun h => by
    simp [hl.tag h]
  -- The scalar is written one level deeper, and the indentation is put back.
  have hback : ∀ {cs : List Char} {u : Sheet}, (s.deeper true true).Adds cs u → u.Busy →
      s.Adds cs { u with indent := s.indent } ∧ ({ u with indent := s.indent } : Sheet).Busy :=
    fun hadds hbusy => ⟨⟨hadds.chars, rfl⟩, ⟨hbusy.blank, hbusy.fresh⟩⟩
  unfold Leaf.put
  rw [hquoting]
  cases hq : l.quotesIn unicode inFlow with
  | plain =>
      have hne : l.text.toList.isEmpty = false := by
        simpa [List.isEmpty_eq_false_iff] using hl.filled hq
      obtain ⟨cs, hcs, hadds, hbusy⟩ := hl.putPlain_spells hq hn
      simp only [hl.readsBack hq, Bool.not_true, Bool.false_eq_true, if_false, if_true, hne,
        Bool.not_false]
      exact ⟨cs, hcs, hback hadds hbusy⟩
  | literal => exact absurd hq hl.quotes_ne_literal
  | single =>
      obtain ⟨cs, hcs, hadds, hbusy⟩ := hl.putSingle_spells hq hn
      simp only [huntagged (by simp [hq]), Bool.false_eq_true, if_false, reduceCtorEq,
        Bool.not_false]
      exact ⟨cs, hcs, hback hadds hbusy⟩
  | double =>
      obtain ⟨cs, hcs, hadds, hbusy⟩ := putDouble_spells (hnarrow hq) hn
      simp only [huntagged (by simp [hq]), Bool.false_eq_true, if_false, reduceCtorEq,
        Bool.not_false]
      exact ⟨cs, hcs, hback hadds hbusy⟩

end Putting

end Yaml

end FormDesigner
