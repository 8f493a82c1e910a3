import Mathlib
import FormDesigner.Yaml.Writer

/-!
# Texts on several lines

The text of a scalar may be spread over several lines. The relations here say what may be written
for a text, wherever its lines end: `Folded` without escapes, `Escaped` with escapes. They leave out
what the text could not be read back from: two ends of a line with nothing but the mark of an escape
between them.
-/

namespace FormDesigner

namespace Text

/-! ### Deciding what holds of each character

There are finitely many characters, so a search for an instance may find the one that tries them
all. -/

/-- What is said of the characters of a text is decided over the text. -/
instance (priority := high) decidableEach (p : Char → Prop) [DecidablePred p] (cs : List Char) :
    Decidable (∀ c ∈ cs, p c) :=
  List.decidableBAll p cs

/-- What is said of the first character, if there is one, is decided on it. -/
instance (priority := high) decidableFirst (p : Char → Prop) [DecidablePred p] :
    (c? : Option Char) → Decidable (∀ c ∈ c?, p c)
  | none => .isTrue nofun
  | some c => decidable_of_iff (p c) (by simp)

end Text

namespace Yaml

/-- Blanks, at the start of a line or inside it. -/
def indentation (n : Nat) : List Char := List.replicate n ' '

@[simp] theorem length_indentation (n : Nat) : (indentation n).length = n := List.length_replicate

@[simp] theorem toList_blanksText (n : Nat) : (blanksText n).toList = indentation n :=
  String.toList_ofList

theorem indentation_succ (n : Nat) : indentation (n + 1) = ' ' :: indentation n := rfl

/-! ### What has been written -/

namespace Sheet

/-- Some text is written, without a lasting change of the indentation. -/
structure Adds (s : Sheet) (cs : List Char) (t : Sheet) : Prop where
  chars : t.text.toList = s.text.toList ++ cs
  indent : t.indent = s.indent

/-- Something other than an indicator ends the line. -/
structure Busy (s : Sheet) : Prop where
  blank : s.blank = false
  fresh : s.fresh = false

variable {s t u : Sheet} {n : Nat} {cs ds : List Char}

theorem Adds.refl (s : Sheet) : s.Adds [] s := ⟨(List.append_nil _).symm, rfl⟩

theorem Adds.trans (h : s.Adds cs t) (h' : t.Adds ds u) : s.Adds (cs ++ ds) u :=
  ⟨by rw [h'.chars, h.chars, List.append_assoc], h'.indent.trans h.indent⟩

theorem Adds.indent_getD (h : s.Adds cs t) (hn : s.indent.getD 0 = n) : t.indent.getD 0 = n := by
  rw [h.indent, hn]

theorem add_adds (s : Sheet) (text : String) : s.Adds text.toList (s.add text) :=
  ⟨String.toList_append, rfl⟩

theorem add_chars_adds (s : Sheet) (cs : List Char) : s.Adds cs (s.add (String.ofList cs)) := by
  simpa using s.add_adds (String.ofList cs)

theorem mark_adds (s : Sheet) (text : String) (apart blank fresh : Bool) :
    s.Adds ((if s.blank || !apart then [] else [' ']) ++ text.toList)
      (s.mark text apart blank fresh) := by
  refine ⟨?_, rfl⟩
  rw [mark, add, String.toList_append]
  split <;> simp

theorem mark_close_adds (s : Sheet) (text : String) :
    s.Adds text.toList (s.mark text false false false) ∧ (s.mark text false false false).Busy := by
  refine ⟨by simpa using s.mark_adds text false false false, rfl, ?_⟩
  exact Bool.and_false _

theorem settle_busy (s : Sheet) : s.settle.Busy := ⟨rfl, rfl⟩

theorem Busy.add (h : s.Busy) (text : String) : (s.add text).Busy := ⟨h.blank, h.fresh⟩

/-- A line is ended where more than the indentation stands on it. -/
theorem newLine_of_full (hn : s.indent.getD 0 = n) (h : s.fresh = false ∨ n < s.column) :
    s.newLine = { s with text := s.text ++ String.ofList ('\n' :: indentation n), column := n,
                         blank := true, fresh := true } := by
  have hbreak : (!s.fresh || decide (n < s.column) || (s.column == n && !s.blank)) = true := by
    rcases h with h | h <;> simp [h]
  have htext : s.text ++ String.ofList ('\n' :: indentation n)
      = s.text ++ "\n" ++ String.ofList (indentation n) := String.toList_inj.1 (by simp)
  unfold newLine
  rw [hn, htext]
  simp only [hbreak, if_true, breakBy]
  split
  · rfl
  · next hzero =>
      obtain rfl : n = 0 := by omega
      simp [indentation]

/-- On a line of its own, only the indentation is missing. -/
theorem newLine_of_fresh (hn : s.indent.getD 0 = n) (hfresh : s.fresh = true)
    (hcolumn : s.column < n ∨ s.column = n ∧ s.blank = true) :
    s.newLine = { s with text := s.text ++ String.ofList (indentation (n - s.column)), column := n,
                         blank := true } := by
  have hbreak : (!s.fresh || decide (n < s.column) || (s.column == n && !s.blank)) = false := by
    rcases hcolumn with h | ⟨h, hblank⟩
    · simp [hfresh, Nat.le_of_lt h, Nat.ne_of_lt h]
    · simp [hfresh, h, hblank]
  unfold newLine
  rw [hn]
  simp only [hbreak, Bool.false_eq_true, if_false]
  rcases hcolumn with h | ⟨h, hblank⟩
  · rw [if_pos h]
    rfl
  · rw [if_neg (by omega), h, Nat.sub_self]
    cases s
    simp_all [indentation]

theorem newLine_adds (hn : s.indent.getD 0 = n) (h : s.fresh = false ∨ n < s.column) :
    s.Adds ('\n' :: indentation n) s.newLine := by
  rw [newLine_of_full hn h]
  exact ⟨by simp, rfl⟩

end Sheet

/-! ### Pieces of a text -/

/-- Blanks and line breaks, at which a line may end. -/
def isGapChar (c : Char) : Bool := c == ' ' || isTextBreak c

/-- A text that begins with neither a blank nor a line break. -/
def StartsWord (cs : List Char) : Prop := ∀ c ∈ cs.head?, isGapChar c = false

namespace Piece

def chars : Piece → List Char
  | .blanks n => indentation n
  | .breaks cs => cs
  | .quote => ['\'']
  | .word cs => cs

def isGap : Piece → Bool
  | .blanks _ | .breaks _ => true
  | _ => false

/-- No piece is empty, and each holds what its kind says. -/
def IsProper : Piece → Prop
  | .blanks n => 0 < n
  | .breaks cs => cs ≠ [] ∧ ∀ c ∈ cs, isTextBreak c = true
  | .quote => True
  | .word cs => cs ≠ [] ∧ ∀ c ∈ cs, isGapChar c = false ∧ c ≠ '\''

theorem IsProper.chars_ne_nil {p : Piece} (h : p.IsProper) : p.chars ≠ [] := by
  cases p with
  | blanks n => simpa [chars, indentation, List.replicate_eq_nil_iff] using Nat.ne_of_gt h
  | breaks cs => exact h.1
  | quote => simp [chars]
  | word cs => exact h.1

/-- The first character of a piece tells whether it is a gap. -/
theorem IsProper.isGapChar_head {p : Piece} (h : p.IsProper) {c : Char}
    (hc : p.chars.head? = some c) : isGapChar c = p.isGap := by
  have hmem : c ∈ p.chars := List.mem_of_mem_head? hc
  cases p with
  | blanks n =>
      obtain rfl := List.eq_of_mem_replicate hmem
      rfl
  | breaks cs => simp [isGapChar, isGap, h.2 c hmem]
  | quote =>
      obtain rfl := List.mem_singleton.1 hmem
      rfl
  | word cs => exact (h.2 c hmem).1

theorem IsProper.eq_blanks {p : Piece} (h : p.IsProper) (hc : p.chars.head? = some ' ') :
    ∃ n, p = .blanks n := by
  have hgap := h.isGapChar_head hc
  cases p with
  | blanks n => exact ⟨n, rfl⟩
  | breaks cs => exact absurd (h.2 _ (List.mem_of_mem_head? hc)) (by decide)
  | quote => simp [isGap, isGapChar] at hgap
  | word cs => simp [isGap, isGapChar] at hgap

theorem IsProper.eq_breaks {p : Piece} (h : p.IsProper) {c : Char} (hc : p.chars.head? = some c)
    (hbreak : isTextBreak c = true) : ∃ cs, p = .breaks cs := by
  have hgap := h.isGapChar_head hc
  cases p with
  | blanks n =>
      obtain rfl := List.eq_of_mem_replicate (List.mem_of_mem_head? hc)
      exact absurd hbreak (by decide)
  | breaks cs => exact ⟨cs, rfl⟩
  | quote => simp [isGap, isGapChar, hbreak] at hgap
  | word cs => simp [isGap, isGapChar, hbreak] at hgap

end Piece

/-- The pieces, one after the other. -/
def charsOf (ps : List Piece) : List Char := ps.flatMap Piece.chars

@[simp] theorem charsOf_nil : charsOf [] = [] := rfl

@[simp] theorem charsOf_cons (p : Piece) (ps : List Piece) :
    charsOf (p :: ps) = p.chars ++ charsOf ps := rfl

theorem head?_charsOf {p : Piece} (h : p.IsProper) (ps : List Piece) :
    (charsOf (p :: ps)).head? = p.chars.head? :=
  List.head?_append_of_ne_nil _ h.chars_ne_nil

/-- A text in pieces: none is empty, and what follows a gap is none. -/
inductive IsPieced : List Piece → Prop
  | nil : IsPieced []
  | cons {p : Piece} {ps : List Piece} (proper : p.IsProper)
      (gap : p.isGap = true → StartsWord (charsOf ps)) (rest : IsPieced ps) : IsPieced (p :: ps)

theorem IsPieced.head_isGap {ps : List Piece} (h : IsPieced ps) (hword : StartsWord (charsOf ps)) :
    ∀ p ∈ ps.head?, p.isGap = false := by
  cases h with
  | nil => simp
  | @cons p ps proper _ _ =>
      obtain ⟨c, hc⟩ := Option.isSome_iff_exists.1 (List.isSome_head?.2 proper.chars_ne_nil)
      have := hword c (by rw [Option.mem_def, head?_charsOf proper, hc])
      simpa [proper.isGapChar_head hc] using this

@[simp] theorem charsOf_addToPieces (c : Char) (ps : List Piece) :
    charsOf (addToPieces c ps) = c :: charsOf ps := by
  unfold addToPieces
  split
  · next h =>
      obtain rfl := eq_of_beq h
      split
      · rfl
      · rfl
  split
  · split <;> rfl
  split
  · next h =>
      obtain rfl := eq_of_beq h
      rfl
  · split <;> rfl

/-- The pieces of a text make up the text. -/
@[simp] theorem charsOf_piecesOf (cs : List Char) : charsOf (piecesOf cs) = cs := by
  induction cs with
  | nil => rfl
  | cons c cs ih => rw [piecesOf, List.foldr_cons, charsOf_addToPieces, ← piecesOf, ih]

/-- A blank beside a line break, in either order. -/
def meetsBreak (a b : Char) : Bool := (isTextBreak a && b == ' ') || (a == ' ' && isTextBreak b)

theorem IsPieced.eq_blanks {ps : List Piece} (h : IsPieced ps)
    (hhead : (charsOf ps).head? = some ' ') : ∃ n rest, ps = .blanks n :: rest := by
  cases h with
  | nil => cases hhead
  | @cons p ps proper _ _ =>
      obtain ⟨n, rfl⟩ := proper.eq_blanks (by rwa [head?_charsOf proper] at hhead)
      exact ⟨n, ps, rfl⟩

theorem IsPieced.eq_breaks {ps : List Piece} (h : IsPieced ps) {d : Char}
    (hhead : (charsOf ps).head? = some d) (hd : isTextBreak d = true) :
    ∃ bs rest, ps = .breaks bs :: rest := by
  cases h with
  | nil => cases hhead
  | @cons p ps proper _ _ =>
      obtain ⟨bs, rfl⟩ := proper.eq_breaks (by rwa [head?_charsOf proper] at hhead) hd
      exact ⟨bs, ps, rfl⟩

/-- A gap that does not go on in the next one stands before a word. -/
theorem addToPieces_isPieced {c : Char} {ps : List Piece} (h : IsPieced ps)
    (hmeets : ∀ d ∈ (charsOf ps).head?, meetsBreak c d = false) : IsPieced (addToPieces c ps) := by
  unfold addToPieces
  split
  · next hc =>
      obtain rfl := eq_of_beq hc
      split
      · next n rest =>
          cases h with
          | cons proper gap rest => exact .cons (Nat.succ_pos _) gap rest
      · next hps =>
          refine .cons Nat.one_pos (fun _ d hd => ?_) h
          have hbreak : isTextBreak d = false := by
            simpa [meetsBreak, isTextBreak] using hmeets d hd
          have hblank : d ≠ ' ' := by
            rintro rfl
            obtain ⟨n, rest, rfl⟩ := h.eq_blanks hd
            exact hps n rest rfl
          simp [isGapChar, hbreak, hblank]
  split
  · next hblank hc =>
      split
      · next bs rest =>
          cases h with
          | cons proper gap rest =>
              exact .cons ⟨by simp, List.forall_mem_cons.2 ⟨hc, proper.2⟩⟩ gap rest
      · next hps =>
          refine .cons ⟨by simp, by simpa using hc⟩ (fun _ d hd => ?_) h
          have hblank : d ≠ ' ' := by
            have := hmeets d hd
            simp only [meetsBreak, hc, Bool.true_and, Bool.or_eq_false_iff,
              beq_eq_false_iff_ne] at this
            exact this.1
          have hbreak : isTextBreak d = false := by
            refine Bool.eq_false_iff.2 fun hd' => ?_
            obtain ⟨bs, rest, rfl⟩ := h.eq_breaks hd hd'
            exact hps bs rest rfl
          simp [isGapChar, hbreak, hblank]
  split
  · exact .cons trivial (by simp [Piece.isGap]) h
  · next hblank hbreak hquote =>
      have hc : isGapChar c = false ∧ c ≠ '\'' := by
        simp only [beq_iff_eq, Bool.not_eq_true] at hblank hbreak hquote
        simp [isGapChar, hblank, hbreak, hquote]
      have hgap : ∀ {w rest}, (Piece.word w).isGap = true → StartsWord (charsOf rest) := by
        simp [Piece.isGap]
      split
      · next w rest =>
          cases h with
          | cons proper gap rest =>
              exact .cons ⟨by simp, List.forall_mem_cons.2 ⟨hc, proper.2⟩⟩ hgap rest
      · exact .cons ⟨by simp, by simpa using hc⟩ hgap h

theorem hasPair_cons_eq_false_iff {p : Char → Char → Bool} {c : Char} {cs : List Char} :
    hasPair p (c :: cs) = false ↔ (∀ d ∈ cs.head?, p c d = false) ∧ hasPair p cs = false := by
  cases cs <;> simp [hasPair]

/-- A text in which no blank stands beside a line break is in pieces. -/
theorem piecesOf_isPieced {cs : List Char}
    (hbreak : hasPair (fun a b => isTextBreak a && b == ' ') cs = false)
    (hblank : hasPair (fun a b => a == ' ' && isTextBreak b) cs = false) :
    IsPieced (piecesOf cs) := by
  induction cs with
  | nil => exact .nil
  | cons c cs ih =>
      rw [hasPair_cons_eq_false_iff] at hbreak hblank
      refine addToPieces_isPieced (ih hbreak.2 hblank.2) fun d hd => ?_
      rw [← piecesOf, charsOf_piecesOf] at hd
      rw [meetsBreak, hbreak.1 d hd, hblank.1 d hd]
      rfl

/-! ### Texts without escapes -/

/-- Line breaks as they are written to be kept: twice if the first one would be read as a blank. -/
def keptBreaks (n : Nat) (bs : List Char) : List Char :=
  (if bs.head? = some '\n' then ['\n'] else []) ++ bs ++ indentation n

/-- The lines that a text is written on: a single blank may end a line, and a line break is kept by
writing it twice, unless it is a separator. Each line but the first is indented by `n`. -/
inductive Folded (spell : Char → List Char) (n : Nat) : List Char → List Char → Prop
  | nil : Folded spell n [] []
  | char {c : Char} {s out : List Char} (hc : isGapChar c = false) (rest : Folded spell n s out) :
      Folded spell n (c :: s) (spell c ++ out)
  | blanks {k : Nat} {s out : List Char} (hk : 0 < k) (word : StartsWord s)
      (rest : Folded spell n s out) :
      Folded spell n (indentation k ++ s) (indentation k ++ out)
  | fold {s out : List Char} (word : StartsWord s) (rest : Folded spell n s out) :
      Folded spell n (' ' :: s) ('\n' :: indentation n ++ out)
  | breaks {bs s out : List Char} (nonempty : bs ≠ []) (hbs : ∀ c ∈ bs, isTextBreak c = true)
      (word : StartsWord s) (rest : Folded spell n s out) :
      Folded spell n (bs ++ s) (keptBreaks n bs ++ out)

namespace Folded

variable {spell : Char → List Char} {n : Nat} {s out : List Char}

/-- A word whose characters are spelled as themselves. -/
theorem word {w : List Char} (hw : ∀ c ∈ w, isGapChar c = false ∧ spell c = [c])
    (h : Folded spell n s out) : Folded spell n (w ++ s) (w ++ out) := by
  induction w with
  | nil => exact h
  | cons c w ih =>
      obtain ⟨⟨hgap, hspell⟩, hw⟩ := List.forall_mem_cons.1 hw
      have := (ih hw).char hgap
      rwa [hspell] at this

/-- Nothing is written but the text, blanks and line feeds. -/
theorem mem (h : Folded spell n s out) {P : Char → Prop} (hblank : P ' ') (hfeed : P '\n')
    (hs : ∀ c ∈ s, P c ∧ ∀ d ∈ spell c, P d) : ∀ c ∈ out, P c := by
  have hindent : ∀ c ∈ indentation n, P c := fun c hc => List.eq_of_mem_replicate hc ▸ hblank
  induction h with
  | nil => exact List.forall_mem_nil _
  | char _ _ ih =>
      rw [List.forall_mem_cons] at hs
      exact List.forall_mem_append.2 ⟨hs.1.2, ih hs.2⟩
  | blanks _ _ _ ih =>
      rw [List.forall_mem_append] at hs
      exact List.forall_mem_append.2
        ⟨fun c hc => List.eq_of_mem_replicate hc ▸ hblank, ih hs.2⟩
  | fold _ _ ih =>
      rw [List.forall_mem_cons] at hs
      exact List.forall_mem_cons.2 ⟨hfeed, List.forall_mem_append.2 ⟨hindent, ih hs.2⟩⟩
  | breaks _ _ _ _ ih =>
      rw [List.forall_mem_append] at hs
      simp only [keptBreaks, List.forall_mem_append]
      refine ⟨⟨⟨?_, fun c hc => (hs.1 c hc).1⟩, hindent⟩, ih hs.2⟩
      split
      · simpa using hfeed
      · exact List.forall_mem_nil _

end Folded

/-- What is written in pieces is a text on its lines, if only single blanks are turned into line
breaks. -/
theorem putPlain_folded {n : Nat} {ps : List Piece} (h : IsPieced ps)
    (hbreaks : ∀ c ∈ charsOf ps, isTextBreak c = false) {s : Sheet} (hn : s.indent.getD 0 = n)
    (hs : s.Busy) (split : Bool) : ∃ out, Folded List.singleton n (charsOf ps) out ∧
      s.Adds out (putPlain split s ps) ∧ (putPlain split s ps).Busy := by
  induction h generalizing s with
  | nil => exact ⟨[], .nil, .refl s, hs⟩
  | @cons p ps proper gap _ ih =>
      obtain ⟨hp, hbreaks'⟩ := List.forall_mem_append.1 hbreaks
      -- What is added as it is keeps the line busy.
      have hadd : ∀ text : String, ∃ out, Folded List.singleton n (charsOf ps) out ∧
          s.Adds (text.toList ++ out) (putPlain split (s.add text) ps) ∧
            (putPlain split (s.add text) ps).Busy := by
        intro text
        obtain ⟨out, hout, hadds, hbusy⟩ := ih hbreaks' (s := s.add text) hn (hs.add text)
        exact ⟨out, hout, (s.add_adds text).trans hadds, hbusy⟩
      cases p with
      | blanks k =>
          have hword : StartsWord (charsOf ps) := gap rfl
          rw [putPlain]
          split
          · next hwraps =>
              obtain ⟨⟨rfl, -⟩, -⟩ : (k = 1 ∧ bestWidth < s.column) ∧ split = true := by
                simpa using hwraps
              have hline := Sheet.newLine_adds hn (.inl hs.fresh)
              obtain ⟨out, hout, hadds, hbusy⟩ := ih hbreaks' (s := s.newLine.settle)
                (hline.indent_getD hn) (Sheet.settle_busy _)
              have hsettled : s.Adds ('\n' :: indentation n) s.newLine.settle :=
                ⟨hline.chars, hline.indent⟩
              exact ⟨_, .fold hword hout, hsettled.trans hadds, hbusy⟩
          · obtain ⟨out, hout, hadds, hbusy⟩ := hadd (blanksText k)
            refine ⟨_, .blanks proper hword hout, ?_, hbusy⟩
            simpa using hadds
      | breaks bs =>
          obtain ⟨b, hb⟩ := List.exists_mem_of_ne_nil _ proper.1
          simpa [proper.2 b hb] using hp b hb
      | quote =>
          obtain ⟨out, hout, hadds, hbusy⟩ := hadd "'"
          exact ⟨_, hout.char (c := '\'') rfl, hadds, hbusy⟩
      | word w =>
          obtain ⟨out, hout, hadds, hbusy⟩ := hadd (String.ofList w)
          refine ⟨w ++ out, hout.word fun c hc => ⟨(proper.2 c hc).1, rfl⟩, ?_, hbusy⟩
          simpa [putPlain] using hadds

/-- How a character is spelled between single quotes. -/
def doubled (c : Char) : List Char := if c = '\'' then ['\'', '\''] else [c]

/-- The line is full enough to be ended before the next gap. -/
def Sheet.IsFilled (s : Sheet) (n : Nat) (ps : List Piece) : Prop :=
  s.fresh = false ∨ n < s.column ∨ n ≤ s.column ∧ ∀ p ∈ ps.head?, p.isGap = false

theorem Sheet.IsFilled.add {s : Sheet} {n : Nat} {p : Piece} {ps qs : List Piece}
    (h : s.IsFilled n (p :: ps)) {text : String} (htext : 0 < text.length) :
    (s.add text).IsFilled n qs := by
  rcases h with h | h | ⟨h, -⟩
  · exact .inl h
  · exact .inr (.inl (Nat.lt_of_lt_of_le h (Nat.le_add_right _ _)))
  · exact .inr (.inl (Nat.lt_of_le_of_lt h (Nat.lt_add_of_pos_right htext)))

theorem breakBy_foldl {bs : List Char} (hbs : bs ≠ []) (s : Sheet) :
    bs.foldl (fun s c => s.breakBy (String.singleton c)) s
      = { s with text := s.text ++ String.ofList bs, column := 0, blank := true,
                 fresh := true } := by
  induction bs generalizing s with
  | nil => exact absurd rfl hbs
  | cons b bs ih =>
      rw [List.foldl_cons]
      have htext : s.text ++ String.singleton b ++ String.ofList bs
          = s.text ++ String.ofList (b :: bs) := String.toList_inj.1 (by simp)
      cases bs with
      | nil => rw [List.foldl_nil, ← htext]; simp [Sheet.breakBy]
      | cons c bs => rw [ih (by simp), ← htext]; rfl

/-- Line breaks are written twice where the first of them would be read as a blank. -/
theorem putBreaks_adds {n : Nat} {bs : List Char} (hbs : bs ≠ []) {s : Sheet}
    (hn : s.indent.getD 0 = n) :
    let t := bs.foldl (fun s c => s.breakBy (String.singleton c))
      (if bs.head? == some '\n' then s.breakBy "\n" else s)
    s.Adds (keptBreaks n bs) t.newLine ∧ t.newLine.column = n := by
  intro t
  have ht : t = _ := breakBy_foldl hbs _
  have hindent : t.indent = s.indent := by
    rw [ht]
    dsimp only
    split <;> rfl
  have hline := Sheet.newLine_of_fresh (s := t) (by rw [hindent, hn]) (by rw [ht]) (n := n)
    (by rw [ht]; dsimp only; rcases n.eq_zero_or_pos with h | h <;> simp [h])
  rw [hline]
  refine ⟨⟨?_, hindent⟩, rfl⟩
  rw [ht]
  by_cases hfeed : bs.head? = some '\n' <;> simp [keptBreaks, hfeed, Sheet.breakBy]

theorem putSingle_folded {n : Nat} {ps : List Piece} (h : IsPieced ps) {s : Sheet}
    (hn : s.indent.getD 0 = n) (hs : s.IsFilled n ps) (split first : Bool) :
    ∃ out, Folded doubled n (charsOf ps) out ∧ s.Adds out (putSingle split first s ps) := by
  induction h generalizing s first with
  | nil => exact ⟨[], .nil, .refl s⟩
  | @cons p ps proper gap rest ih =>
      cases p with
      | blanks k =>
          have hword : StartsWord (charsOf ps) := gap rfl
          have hnext : ∀ q ∈ ps.head?, q.isGap = false := rest.head_isGap hword
          have hfull : s.fresh = false ∨ n < s.column := by
            rcases hs with h | h | ⟨-, h⟩
            · exact .inl h
            · exact .inr h
            · simp [Piece.isGap] at h
          rw [putSingle]
          split
          · next hwraps =>
              obtain rfl : k = 1 := by simp at hwraps; exact hwraps.1.1.1.1
              have hline := Sheet.newLine_adds hn hfull
              have hcolumn : s.newLine.column = n := by rw [Sheet.newLine_of_full hn hfull]
              obtain ⟨out, hout, hadds⟩ := ih (s := s.newLine) (hline.indent_getD hn)
                (.inr (.inr ⟨Nat.le_of_eq hcolumn.symm, hnext⟩)) false
              exact ⟨_, .fold hword hout, hline.trans hadds⟩
          · obtain ⟨out, hout, hadds⟩ := ih (s := s.add (blanksText k)) hn
              (hfull.imp id fun h => .inl (Nat.lt_of_lt_of_le h (Nat.le_add_right _ _))) false
            refine ⟨_, .blanks proper hword hout, ?_⟩
            simpa using (s.add_adds (blanksText k)).trans hadds
      | breaks bs =>
          have hword : StartsWord (charsOf ps) := gap rfl
          obtain ⟨hadds, hcolumn⟩ := putBreaks_adds proper.1 hn
          obtain ⟨out, hout, hadds'⟩ := ih (s := Sheet.newLine _) (hadds.indent_getD hn)
            (.inr (.inr ⟨Nat.le_of_eq hcolumn.symm, rest.head_isGap hword⟩)) false
          exact ⟨_, .breaks proper.1 proper.2 hword hout, hadds.trans hadds'⟩
      | quote =>
          obtain ⟨out, hout, hadds⟩ := ih (s := s.add "''") hn (hs.add Nat.two_pos) false
          exact ⟨_, hout.char (c := '\'') rfl, (s.add_adds "''").trans hadds⟩
      | word w =>
          obtain ⟨out, hout, hadds⟩ := ih (s := s.add (String.ofList w)) hn
            (hs.add (by simpa using List.length_pos_iff.2 proper.1)) false
          have hw : ∀ c ∈ w, isGapChar c = false ∧ doubled c = [c] := fun c hc =>
            ⟨(proper.2 c hc).1, if_neg (proper.2 c hc).2⟩
          refine ⟨w ++ out, hout.word hw, ?_⟩
          simpa [putSingle] using (s.add_chars_adds w).trans hadds

/-! ### Texts with escapes -/

/-- The end of a line between double quotes, and the indentation of the next one. -/
def lineEnd (n : Nat) : List Char := '\\' :: '\n' :: indentation n

/-- What is written between double quotes: characters as they are or escaped, on lines that may end
anywhere. A blank at the start of a line is escaped. -/
inductive Escaped (unicode : Bool) (n : Nat) : List Char → List Char → Prop
  | nil : Escaped unicode n [] []
  | char {c : Char} {s out : List Char} (hc : doubleEscape? unicode c = none)
      (rest : Escaped unicode n s out) : Escaped unicode n (c :: s) (c :: out)
  | escape {c : Char} {e : String} {s out : List Char} (hc : doubleEscape? unicode c = some e)
      (rest : Escaped unicode n s out) : Escaped unicode n (c :: s) (e.toList ++ out)
  | fold {s out : List Char} (hs : s.head? ≠ some ' ') (rest : Escaped unicode n s out) :
      Escaped unicode n s (lineEnd n ++ out)
  | foldBlank {s out : List Char} (rest : Escaped unicode n s out) :
      Escaped unicode n (' ' :: s) (lineEnd n ++ '\\' :: ' ' :: out)

variable {unicode : Bool}

theorem Escaped.mem {n : Nat} {s out : List Char} (h : Escaped unicode n s out) {P : Char → Prop}
    (hblank : P ' ') (hfeed : P '\n') (hmark : P '\\')
    (hs : ∀ c ∈ s, (doubleEscape? unicode c = none → P c) ∧
      ∀ e, doubleEscape? unicode c = some e → ∀ d ∈ e.toList, P d) : ∀ c ∈ out, P c := by
  have hend : ∀ c ∈ lineEnd n, P c := by
    simp only [lineEnd, List.forall_mem_cons]
    exact ⟨hmark, hfeed, fun c hc => List.eq_of_mem_replicate hc ▸ hblank⟩
  induction h with
  | nil => exact List.forall_mem_nil _
  | char hc _ ih =>
      rw [List.forall_mem_cons] at hs
      exact List.forall_mem_cons.2 ⟨hs.1.1 hc, ih hs.2⟩
  | escape hc _ ih =>
      rw [List.forall_mem_cons] at hs
      exact List.forall_mem_append.2 ⟨hs.1.2 _ hc, ih hs.2⟩
  | fold _ _ ih => exact List.forall_mem_append.2 ⟨hend, ih hs⟩
  | foldBlank _ ih =>
      rw [List.forall_mem_cons] at hs
      simp only [List.forall_mem_append, List.forall_mem_cons]
      exact ⟨hend, hmark, hblank, ih hs.2⟩

/-- A line may end before a text whose first blank would be written as it is. -/
theorem Escaped.atLineEnd {n : Nat} {s out : List Char} (h : Escaped unicode n s out)
    (hblank : ∀ s', s = ' ' :: s' → ∃ out', out = ' ' :: out' ∧ Escaped unicode n s' out') :
    Escaped unicode n s ((lineEnd n ++ if s.head? = some ' ' then ['\\'] else []) ++ out) := by
  by_cases hhead : s.head? = some ' '
  · obtain ⟨s', rfl⟩ := List.head?_eq_some_iff.1 hhead
    obtain ⟨out', rfl, hout'⟩ := hblank s' rfl
    simpa using hout'.foldBlank
  · simpa [hhead] using h.fold hhead

/-- A character that is escaped, before a blank. -/
def escapesBefore (a b : Char) : Bool := (doubleEscape? true a).isSome && b == ' '

theorem breakDouble_adds {n : Nat} {s : Sheet} (hn : s.indent.getD 0 = n) (hs : s.Busy)
    (next : Option Char) :
    s.Adds (lineEnd n ++ if next = some ' ' then ['\\'] else []) (breakDouble s next) ∧
      (breakDouble s next).Busy ∧ (breakDouble s next).column ≤ n + 1 := by
  have hline := Sheet.newLine_of_full (s := s.add "\\") hn (.inl hs.fresh)
  unfold breakDouble
  rw [hline]
  by_cases hnext : next = some ' '
  · simp only [hnext, beq_self_eq_true, if_true]
    exact ⟨⟨by simp [Sheet.add, Sheet.settle, lineEnd], rfl⟩, ⟨rfl, rfl⟩, Nat.le_refl _⟩
  · simp only [beq_eq_false_iff_ne.2 hnext, Bool.false_eq_true, if_false, if_neg hnext]
    exact ⟨⟨by simp [Sheet.add, Sheet.settle, lineEnd], rfl⟩, ⟨rfl, rfl⟩, Nat.le_succ _⟩

/-- What is written between double quotes is the text on its lines, unless it is indented so far
that a line ends both before and after the mark that a blank is escaped with. By induction on the
text; a blank that does not end the line is written next. -/
theorem putDouble_escaped {n : Nat} {cs : List Char}
    (hcs : n < bestWidth ∨
      hasPair (fun a b => (doubleEscape? unicode a).isSome && b == ' ') cs = false)
    {s : Sheet} (hn : s.indent.getD 0 = n) (hs : s.Busy) (split first : Bool) (held : List Char) :
    ∃ out, Escaped unicode n cs out ∧
      s.Adds (held.reverse ++ out) (putDouble unicode split s first held cs) ∧
      (s.column + held.length ≤ bestWidth → ∀ rest, cs = ' ' :: rest →
        ∃ out', out = ' ' :: out' ∧ Escaped unicode n rest out') := by
  induction cs generalizing s first held with
  | nil => exact ⟨[], .nil, by simpa [putDouble] using s.add_chars_adds held.reverse, by simp⟩
  | cons c rest ih =>
      have hrest : n < bestWidth ∨
          hasPair (fun a b => (doubleEscape? unicode a).isSome && b == ' ') rest = false :=
        hcs.imp id fun h => (hasPair_cons_eq_false_iff.1 h).2
      rw [putDouble]
      cases hc : doubleEscape? unicode c with
      | some e =>
          dsimp only
          -- What was held back is written before the escape.
          obtain ⟨t, ht⟩ : ∃ t, t = (s.add (String.ofList held.reverse)).add e := ⟨_, rfl⟩
          rw [← ht]
          have hadd : s.Adds (held.reverse ++ e.toList) t :=
            ht ▸ (s.add_chars_adds held.reverse).trans (Sheet.add_adds _ e)
          have hbusy : t.Busy := ht ▸ (hs.add (String.ofList held.reverse)).add e
          have htn := hadd.indent_getD hn
          have hblank : c ≠ ' ' := by
            rintro rfl
            simp [doubleEscape?] at hc
          split
          · obtain ⟨hadds, hbusy', hcolumn⟩ := breakDouble_adds htn hbusy rest.head?
            obtain ⟨out, hout, hadds', hspace⟩ := ih hrest (hadds.indent_getD htn) hbusy' false []
            refine ⟨_, .escape hc (hout.atLineEnd fun rest' hrest' => ?_),
              by simpa using hadd.trans (hadds.trans hadds'), by simp [hblank]⟩
            -- The escape stands before a blank, so the indentation leaves room for the blank.
            have hn' : n < bestWidth := hcs.resolve_right fun h => by
              simpa [hc, hrest'] using (hasPair_cons_eq_false_iff.1 h).1
            exact hspace (by rw [List.length_nil]; omega) rest' hrest'
          · obtain ⟨out, hout, hadds, -⟩ := ih hrest htn hbusy false []
            exact ⟨_, .escape hc hout, by simpa using hadd.trans hadds, by simp [hblank]⟩
      | none =>
          dsimp only
          split
          · next hwraps =>
              have hwide : ¬ s.column + held.length ≤ bestWidth := by
                simp only [Bool.and_eq_true, decide_eq_true_eq] at hwraps
                omega
              obtain ⟨hadds, hbusy, -⟩ := breakDouble_adds (n := n)
                (s := s.add (String.ofList held.reverse)) hn (hs.add _) (some c)
              obtain ⟨out, hout, hadds', -⟩ := ih hrest
                (hadds.indent_getD hn) hbusy false [c]
              refine ⟨_, (hout.char hc).atLineEnd ?_,
                by simpa using ((s.add_chars_adds held.reverse).trans hadds).trans hadds',
                fun h => absurd h hwide⟩
              rintro _ heq
              obtain ⟨rfl, rfl⟩ := List.cons.inj heq
              exact ⟨out, rfl, hout⟩
          · obtain ⟨out, hout, hadds, -⟩ := ih hrest hn hs false (c :: held)
            refine ⟨c :: out, hout.char hc, by simpa using hadds, ?_⟩
            rintro - _ heq
            obtain ⟨rfl, rfl⟩ := List.cons.inj heq
            exact ⟨out, rfl, hout⟩

end Yaml

end FormDesigner
