import FormDesigner.Proofs.Yaml.Unfolding

/-!
# Plain texts are read back

A plain text is read word by word: a word goes on until a blank, the end of the line or a colon that
ends it. The text goes on after a gap, on the same line or on the next one, as long as the line is
indented deeper than what the text belongs to.
-/

namespace FormDesigner

namespace Yaml

/-- A run of characters of a plain text without gaps. -/
structure IsWord (w : List Char) : Prop where
  filled : w ≠ []
  head : w.head? ≠ some '#'
  last : w.getLast? ≠ some ':'
  ink : ∀ c ∈ w, endsToken (some c) = false ∧ c ≠ byteOrderMark

/-- A text and the words and gaps that are written for it. -/
inductive InWords (n : Nat) : List Char → List Char → Prop
  | word {w : List Char} (hw : IsWord w) : InWords n w w
  | blanks {w : List Char} {k : Nat} {s out : List Char} (hw : IsWord w) (hk : 0 < k)
      (rest : InWords n s out) : InWords n (w ++ (indentation k ++ s)) (w ++ (indentation k ++ out))
  | fold {w s out : List Char} (hw : IsWord w) (rest : InWords n s out) :
      InWords n (w ++ ' ' :: s) (w ++ '\n' :: (indentation n ++ out))

/-! ### Words of a plain text -/

theorem endsToken_eq_isSpacing {c : Char} (h : isSpecial true c = false ∨ c = ' ') :
    endsToken (some c) = isGapChar c := by
  rcases h with h | rfl
  · have htab : c ≠ '\t' := by
      rintro rfl
      exact absurd h (by decide)
    have hreturn : (c == '\r') = false := beq_eq_false_iff_ne.2 (isClean_of_not_special h).2
    have hbreak : isBreak c = isTextBreak c := by
      simp [isBreak, isTextBreak, isSeparator, hreturn, Bool.or_assoc]
    simp [endsToken, endsWord, endsLine, isGapChar, hbreak, htab, Bool.or_comm]
  · rfl

/-- The first gap of a text, and what is written for it. -/
inductive Gap (n : Nat) : List Char → List Char → Prop
  | none : Gap n [] []
  | blanks {k : Nat} {s out : List Char} (hk : 0 < k) (word : StartsWord s)
      (rest : Folded List.singleton n s out) : Gap n (indentation k ++ s) (indentation k ++ out)
  | fold {s out : List Char} (word : StartsWord s) (rest : Folded List.singleton n s out) :
      Gap n (' ' :: s) ('\n' :: (indentation n ++ out))

theorem Gap.head {n : Nat} {text out : List Char} (h : Gap n text out) :
    text = [] ∨ text.head? = some ' ' := by
  cases h with
  | none => exact .inl rfl
  | @blanks k s out hk _ _ =>
      obtain ⟨k, rfl⟩ := Nat.exists_eq_succ_of_ne_zero (Nat.ne_of_gt hk)
      exact .inr rfl
  | fold _ _ => exact .inr rfl

theorem Folded.gap {n : Nat} {text out : List Char} (h : Folded List.singleton n text out)
    (htext : ∀ c ∈ text, isTextBreak c = false) :
    ∃ w text' out', text = w ++ text' ∧ out = w ++ out' ∧ (∀ c ∈ w, isGapChar c = false) ∧
      Gap n text' out' := by
  induction h with
  | nil => exact ⟨[], [], [], rfl, rfl, List.forall_mem_nil _, .none⟩
  | @char c text out hc _ ih =>
      obtain ⟨w, text', out', rfl, rfl, hw, hgap⟩ := ih (List.forall_mem_cons.1 htext).2
      exact ⟨c :: w, text', out', rfl, rfl, List.forall_mem_cons.2 ⟨hc, hw⟩, hgap⟩
  | blanks hk word rest _ =>
      exact ⟨[], _, _, rfl, rfl, List.forall_mem_nil _, .blanks hk word rest⟩
  | fold word rest _ => exact ⟨[], _, _, rfl, rfl, List.forall_mem_nil _, .fold word rest⟩
  | @breaks bs _ _ nonempty hbs _ _ _ =>
      obtain ⟨b, hb⟩ := List.exists_mem_of_ne_nil _ nonempty
      simpa [hbs b hb] using htext b (List.mem_append_left _ hb)

theorem holdsMark_append {previous : Char} {a b : List Char}
    (h : holdsMark false previous (a ++ b) = false) :
    holdsMark false ((previous :: a).getLast (List.cons_ne_nil _ _)) b = false := by
  induction a generalizing previous with
  | nil => exact h
  | cons c a ih =>
      rw [List.getLast_cons (List.cons_ne_nil _ _)]
      simp only [List.cons_append, holdsMark, Bool.or_eq_false_iff] at h
      exact ih h.2

/-- A colon in a text without marks is followed by a character that is no gap. -/
theorem not_colon_last {previous : Char} {w rest : List Char}
    (h : holdsMark false previous (w ++ rest) = false) (hrest : endsSpacing rest.head? = true) :
    w.getLast? ≠ some ':' := by
  intro hlast
  obtain ⟨w, rfl⟩ := List.getLast?_eq_some_iff.1 hlast
  rw [List.append_assoc] at h
  have := holdsMark_append h
  simp [holdsMark, hrest] at this

/-- What stands in front of a gap of a text without marks is a word. -/
theorem isWord_of_mark {w rest : List Char} (hne : w ≠ [])
    (hw : ∀ c ∈ w, isGapChar c = false) (hspecial : ∀ c ∈ w, isSpecial true c = false)
    (hmark : holdsMark false ' ' (w ++ rest) = false) (hrest : endsSpacing rest.head? = true) :
    IsWord w := by
  have hhash : w.head? ≠ some '#' := by
    cases w with
    | nil => exact absurd rfl hne
    | cons c w =>
        simp only [List.cons_append, holdsMark, Bool.or_eq_false_iff, Bool.and_eq_false_iff]
          at hmark
        simpa [isSpacing] using hmark.1.2
  refine ⟨hne, hhash, not_colon_last hmark hrest, fun c hc => ?_⟩
  have := hspecial c hc
  refine ⟨by rw [endsToken_eq_isSpacing (.inl this), hw c hc], ?_⟩
  rintro rfl
  exact absurd this (by decide)

/-- Marks are looked for behind a blank as they are at the start of a text. -/
theorem holdsMark_behind_blank {a s : List Char} (ha : a.getLast? = some ' ')
    (h : holdsMark false ' ' (a ++ s) = false) : holdsMark false ' ' s = false := by
  have hne : a ≠ [] := by
    rintro rfl
    cases ha
  have hblank : (' ' :: a).getLast (List.cons_ne_nil _ _) = ' ' := by
    rw [List.getLast_cons hne]
    exact Option.some.inj ((List.getLast?_eq_some_getLast hne).symm.trans ha)
  have := holdsMark_append h
  rwa [hblank] at this

/-- A plain text without its marks consists of words. By induction on its length. -/
theorem Folded.inWords {n : Nat} {text out : List Char} (h : Folded List.singleton n text out)
    (hne : text ≠ []) (hword : StartsWord text) (hlast : text.getLast? ≠ some ' ')
    (hspecial : ∀ c ∈ text, isSpecial true c = false ∧ isTextBreak c = false)
    (hmark : holdsMark false ' ' text = false) : InWords n text out := by
  induction hlength : text.length using Nat.strongRecOn generalizing text out with
  | ind length ih =>
      obtain ⟨w, text', out', rfl, rfl, hw, hgap⟩ := h.gap fun c hc => (hspecial c hc).2
      have hfilled : w ≠ [] := by
        rintro rfl
        rcases hgap.head with hnil | hblank
        · exact hne hnil
        · exact absurd (hword ' ' hblank) (by decide)
      have hspaced : endsSpacing text'.head? = true := by
        rcases hgap.head with rfl | hblank
        · rfl
        · rw [hblank]
          rfl
      have hisWord : IsWord w := isWord_of_mark hfilled hw
        (fun c hc => (hspecial c (List.mem_append_left _ hc)).1) hmark hspaced
      -- What follows the gap is such a text as well.
      have hnext : ∀ (gap : List Char) {s o : List Char}, text' = gap ++ s →
          gap.getLast? = some ' ' → StartsWord s → Folded List.singleton n s o →
            InWords n s o := by
        rintro gap s o rfl hlastGap hword' rest
        have hgapNe : gap ≠ [] := by
          rintro rfl
          cases hlastGap
        have hs : s ≠ [] := by
          rintro rfl
          rw [List.append_nil, List.getLast?_append_of_ne_nil _ hgapNe] at hlast
          exact hlast hlastGap
        refine ih s.length ?_ rest hs hword' ?_
          (fun c hc => hspecial c (List.mem_append_right _ (List.mem_append_right _ hc)))
          (holdsMark_behind_blank (a := w ++ gap) ?_ (by simpa using hmark)) rfl
        · have := List.length_pos_iff.2 hfilled
          rw [← hlength, List.length_append, List.length_append]
          omega
        · rw [List.getLast?_append_of_ne_nil _ (by simp [hs]),
            List.getLast?_append_of_ne_nil _ hs] at hlast
          exact hlast
        · rw [List.getLast?_append_of_ne_nil _ hgapNe, hlastGap]
      cases hgap with
      | none =>
          rw [List.append_nil]
          exact .word hisWord
      | @blanks k s o hk hword' rest =>
          refine .blanks hisWord hk (hnext _ rfl ?_ hword' rest)
          obtain ⟨k, rfl⟩ := Nat.exists_eq_succ_of_ne_zero (Nat.ne_of_gt hk)
          rw [indentation, List.replicate_succ', List.getLast?_concat]
      | fold hword' rest => exact .fold hisWord (hnext [' '] rfl rfl hword' rest)

/-- What is written for a plain text consists of words. -/
theorem IsPlain.inWords {n : Nat} {text out : List Char} (htext : IsPlain text) (hne : text ≠ [])
    (h : Folded List.singleton n text out) : InWords n text out := by
  have hspecial : ∀ c ∈ text, isSpecial true c = false ∧ isTextBreak c = false := fun c hc =>
    ⟨(traits_quotable_iff.1 htext.quotable).2.2 c hc, htext.breaks c hc⟩
  have hmarked := htext.marked
  refine h.inWords hne (fun c hc => ?_) htext.last hspecial ?_
  · have hblank : c ≠ ' ' := fun heq => htext.head (heq ▸ hc)
    simp [isGapChar, hblank, htext.breaks c (List.mem_of_mem_head? hc)]
  · cases text with
    | nil => rfl
    | cons c rest =>
        simp only [isMarked, Bool.or_eq_false_iff, startsMarked] at hmarked
        obtain ⟨⟨-, hstart⟩, hholds⟩ := hmarked
        have hhash : c ≠ '#' := by
          rintro rfl
          exact absurd hstart.1.1 (by decide)
        have hcolon : (c == ':' && endsSpacing rest.head?) = false := by
          have := hstart.1.2
          simp only [Bool.false_or, Bool.and_eq_false_iff, Bool.or_eq_false_iff] at this ⊢
          tauto
        simp [holdsMark, hhash, hcolon, hholds]

/-- Calm texts are words. -/
theorem IsCalm.isWord {cs : List Char} (h : IsCalm cs) : IsWord cs := by
  have hne : ∀ {c d : Char}, c ∈ cs → isQuiet d = false → c ≠ d := fun hc =>
    ne_of_isQuiet (h.quiet _ hc)
  refine ⟨h.ne_nil, fun hc => hne (List.mem_of_mem_head? hc) rfl rfl,
    fun hc => hne (List.mem_of_getLast? hc) rfl rfl, fun c hc => ⟨?_, hne hc rfl⟩⟩
  rw [endsToken_eq_isSpacing (.inl (h.not_special true c hc)),
    isGapChar_of_isQuiet (h.quiet c hc)]

/-! ### Reading words -/

/-- What ends a word: the end of a token, or a colon before one. -/
def EndsWord (rest : List Char) : Prop :=
  endsToken rest.head? = true ∨ ∃ rest', rest = ':' :: rest' ∧ endsToken rest'.head? = true

theorem plainLength_append {w rest : List Char} (hw : ∀ c ∈ w, endsToken (some c) = false)
    (hlast : w.getLast? ≠ some ':') (hrest : EndsWord rest) :
    plainLength false (w ++ rest) = w.length := by
  induction w with
  | nil =>
      rw [List.nil_append]
      rcases hrest with hrest | ⟨rest', rfl, hrest⟩
      · cases rest with
        | nil => rfl
        | cons c rest =>
            rw [List.head?_cons] at hrest
            simp [plainLength, hrest]
      · simp [plainLength, hrest]
  | cons c w ih =>
      obtain ⟨hc, hw⟩ := List.forall_mem_cons.1 hw
      have hcolon : (c == ':' && endsToken (w ++ rest).head?) = false := by
        cases w with
        | nil =>
            have : c ≠ ':' := by simpa using hlast
            simp [this]
        | cons d w => simp [hw d (.head _)]
      have hlast' : w.getLast? ≠ some ':' := by
        cases w with
        | nil => simp
        | cons d w => simpa [List.getLast?_cons_cons] using hlast
      have hlength := ih hw hlast'
      simp only [List.cons_append, plainLength, hc, Bool.false_and, Bool.or_self,
        Bool.false_eq_true, if_false, Bool.or_false, hcolon, hlength, List.length_cons]
      omega

theorem IsWord.plainLength {w rest : List Char} (hw : IsWord w) (hrest : EndsWord rest) :
    plainLength false (w ++ rest) = w.length :=
  plainLength_append (fun c hc => (hw.ink c hc).1) hw.last hrest

variable {s : Scan} {n : Nat}

/-- One word, and what comes of the gap after it. -/
theorem plainText_word {inFlow : Bool} {w rest : List Char} (hw : IsWord w)
    (hlength : plainLength inFlow (w ++ rest) = w.length) (h : s.rest = w ++ rest)
    (hflow : (s.flow != 0) = inFlow) (indent : Int) (blanks : List Char) (fuel : Nat) :
    (plainText indent blanks (fuel + 1)).run s
      = (do
          let next ← plainBlanks
          let t ← get
          if next.isEmpty || t.rest.head? == some '#' || (!inFlow && (t.column : Int) < indent) then
            return blanks ++ w
          else return blanks ++ w ++ (← plainText indent next fuel) : Scanner (List Char)).run
        ((s.ahead w.length).allowing false) := by
  have hhash : (s.rest.head? == some '#') = false := by
    rw [h, List.head?_append_of_ne_nil _ hw.filled]
    exact beq_eq_false_iff_ne.2 hw.head
  have hword : plainLength inFlow s.rest = w.length := by rw [h, hlength]
  have hpos : (w.length == 0) = false := by simpa using hw.filled
  have htake : s.rest.take w.length = w := by rw [h, List.take_left]
  rw [plainText, run_get_bind]
  simp only [hflow, hhash, hword, hpos, htake, Bool.false_eq_true, if_false]
  rw [run_bind (allowKey_run false s), run_bind (forward_run _ _), Scan.ahead_allowing]

theorem IsWord.isInline {w : List Char} (hw : IsWord w) : Scan.IsInline w := fun c hc => by
  have := (hw.ink c hc).1
  simp only [endsToken, endsWord, endsLine, Option.all_some, Bool.or_eq_false_iff] at this
  exact ⟨this.1.1, (hw.ink c hc).2⟩

theorem IsWord.startsInk {w : List Char} (hw : IsWord w) (rest : List Char) :
    StartsInk (w ++ rest) := by
  cases w with
  | nil => exact absurd rfl hw.filled
  | cons c w =>
      have := (hw.ink c (.head _)).1
      simp only [endsToken, endsWord, endsLine, Option.all_some, Bool.or_eq_false_iff,
        beq_eq_false_iff_ne, ne_eq, Option.some.injEq] at this
      exact startsInk_cons ⟨this.1.2, this.2, this.1.1⟩ _

/-- Text and lines begin with the same word. -/
theorem InWords.startsWord {text out : List Char} (h : InWords n text out) :
    ∃ w more more', IsWord w ∧ text = w ++ more ∧ out = w ++ more' ∧
      endsSpacing more.head? = true := by
  cases h with
  | word hw => exact ⟨_, [], [], hw, by simp, by simp, rfl⟩
  | @blanks w k s out hw hk _ =>
      obtain ⟨k, rfl⟩ := Nat.exists_eq_succ_of_ne_zero (Nat.ne_of_gt hk)
      exact ⟨_, _, _, hw, rfl, rfl, rfl⟩
  | fold hw _ => exact ⟨_, _, _, hw, rfl, rfl, rfl⟩

theorem InWords.same_head {text out : List Char} (h : InWords n text out) :
    ∃ c text' out', text = c :: text' ∧ out = c :: out' := by
  obtain ⟨w, more, more', hw, rfl, rfl, -⟩ := h.startsWord
  obtain ⟨c, w, rfl⟩ := List.exists_cons_of_ne_nil hw.filled
  exact ⟨c, _, _, rfl, rfl⟩

theorem InWords.startsInk {text out : List Char} (h : InWords n text out) (rest : List Char) :
    StartsInk (out ++ rest) ∧ (out ++ rest).head? ≠ some '#' := by
  obtain ⟨w, -, more, hw, -, rfl, -⟩ := h.startsWord
  rw [List.append_assoc, List.head?_append_of_ne_nil _ hw.filled]
  exact ⟨hw.startsInk _, hw.head⟩

/-- Blanks inside a line. -/
theorem plainBlanks_run_blanks {rest : List Char} (h : s.rest = indentation n ++ rest)
    (hrest : StartsInk rest) : plainBlanks.run s = .ok (indentation n, s.ahead n) := by
  have htake : (takeWhile (· == ' ')).run s = .ok (indentation n, s.ahead n) := by
    simpa using takeWhile_run h (fun c hc => by simpa using List.eq_of_mem_replicate hc)
      fun c hc => by simpa using (hrest.1 c hc).1
  have hnext := Scan.rest_ahead_indentation h
  rw [plainBlanks, run_bind htake, run_bind (lineBreak_run_none (hnext ▸ hrest.2))]
  rfl

/-- The end of a line and the indentation of the next one. A key may begin there. -/
theorem plainBlanks_run_feed {rest : List Char} (h : s.rest = '\n' :: (indentation n ++ rest))
    (hrest : StartsInk rest) (hseparated : IsUnseparated (indentation n ++ rest)) :
    plainBlanks.run s = .ok ([' '], (s.ahead (n + 1)).allowing true) := by
  have htake : (takeWhile (· == ' ')).run s = .ok ([], s.ahead 0) :=
    takeWhile_run h (List.forall_mem_nil _) (by simp)
  have hnext : ((s.ahead 1).allowing true).rest = indentation n ++ rest := Scan.rest_ahead_one h
  have hbreaks : ∀ fuel, (plainBreaks (fuel + 1)).run ((s.ahead 1).allowing true)
      = .ok (some [], (s.ahead (n + 1)).allowing true) := by
    intro fuel
    have hrest' : ∀ c ∈ (((s.ahead 1).allowing true).ahead n).rest.head?, isBreak c = false := by
      rw [Scan.rest_ahead_indentation hnext]
      exact hrest.2
    have hblank : rest.head? ≠ some ' ' := fun hc => (hrest.1 ' ' hc).1 rfl
    rw [plainBreaks, run_bind (atAnySeparator_run (hnext ▸ hseparated))]
    simp only [Bool.false_eq_true, if_false]
    rw [run_bind (skip_blanks_run hnext hblank), run_bind (lineBreak_run_none hrest'),
      Scan.ahead_allowing, ← Scan.ahead_add, Nat.add_comm]
    rfl
  rw [plainBlanks, run_bind htake, Scan.ahead_zero, run_bind (lineBreak_run h (.inl rfl))]
  simp only [List.isEmpty_cons, Bool.false_eq_true, if_false]
  rw [run_bind (allowKey_run true _), run_get_bind, run_bind (hbreaks _)]
  rfl

/-- A word and a gap, and what follows them. -/
theorem plainText_gap {inFlow : Bool} {w rest gap text : List Char} {indent : Int} {fuel : Nat}
    {t u : Scan} (hw : IsWord w) (hs : s.rest = w ++ rest)
    (hlength : plainLength inFlow (w ++ rest) = w.length) (hflow : (s.flow != 0) = inFlow)
    (hgap : plainBlanks.run ((s.ahead w.length).allowing false) = .ok (gap, t)) (hne : gap ≠ [])
    (hhash : t.rest.head? ≠ some '#') (hcolumn : inFlow = true ∨ indent ≤ t.column)
    (htext : (plainText indent gap fuel).run t = .ok (gap ++ text, u)) (blanks : List Char) :
    (plainText indent blanks (fuel + 1)).run s = .ok (blanks ++ (w ++ (gap ++ text)), u) := by
  have hgoes : (gap.isEmpty || t.rest.head? == some '#'
      || (!inFlow && decide ((t.column : Int) < indent))) = false := by
    rcases hcolumn with rfl | hcolumn
    · simp [hne, hhash]
    · simp [hne, hhash, hcolumn]
  rw [plainText_word hw hlength hs hflow, run_bind hgap, run_get_bind]
  simp only [hgoes, Bool.false_eq_true, if_false]
  rw [run_bind htext, List.append_assoc]
  rfl

/-- A plain text at the end of a line is read up to the first character of the next line, which is
not indented deep enough to belong to it. By induction on the words. -/
theorem InWords.plainText_run {text out rest : List Char} (h : InWords n text out) {indent : Int}
    (hindent : indent ≤ n) (hn : 0 < n) {m : Nat} (hm : (m : Int) < indent) (hrest : StartsInk rest)
    (hseparated : IsUnseparated (indentation m ++ rest)) {s : Scan} (hflow : s.flow = 0)
    (hcolumn : indent ≤ s.column) (hs : s.rest = out ++ '\n' :: (indentation m ++ rest))
    (blanks : List Char) {fuel : Nat} (hfuel : out.length < fuel) :
    (plainText indent blanks fuel).run s
      = .ok (blanks ++ text, (s.ahead (out.length + (m + 1))).allowing true) := by
  induction h generalizing s blanks fuel with
  | @word w hw =>
      obtain ⟨fuel, rfl⟩ : ∃ f, fuel = f + 1 := ⟨fuel - 1, by omega⟩
      have hend := Scan.rest_ahead hs
      have hstop : (((s.ahead w.length).allowing false).ahead (m + 1)).column = m := by
        rw [Scan.ahead_feed (s := (s.ahead w.length).allowing false) hend]
      rw [plainText_word hw (hw.plainLength (.inl rfl)) hs (by simp [hflow]),
        run_bind (plainBlanks_run_feed (s := (s.ahead w.length).allowing false) hend hrest
          hseparated),
        run_get_bind]
      simp only [Scan.allowing_column, hstop, hm, decide_true, Bool.not_false, Bool.true_and,
        Bool.or_true, if_true]
      rw [Scan.ahead_allowing, ← Scan.ahead_add, Scan.allowing_allowing]
      rfl
  | @blanks w k text out hw hk h ih =>
      obtain ⟨fuel, rfl⟩ : ∃ f, fuel = f + 1 := ⟨fuel - 1, by omega⟩
      obtain ⟨k, rfl⟩ := Nat.exists_eq_succ_of_ne_zero (Nat.ne_of_gt hk)
      rw [List.append_assoc, List.append_assoc] at hs
      have hend : ((s.ahead w.length).allowing false).rest = _ := Scan.rest_ahead hs
      have hafter := Scan.rest_ahead_indentation hend
      have hcolumn' : indent ≤ (((s.ahead w.length).allowing false).ahead (k + 1)).column := by
        rw [← List.append_assoc] at hs
        have hinline := Scan.ahead_inline hs
          (List.forall_mem_append.2 ⟨hw.isInline, Scan.isInline_indentation _⟩)
        rw [List.length_append, length_indentation, Scan.ahead_add] at hinline
        rw [Scan.ahead_allowing, Scan.allowing_column, hinline]
        push_cast
        omega
      have hfuel' : out.length < fuel := by
        simp only [List.length_append, length_indentation] at hfuel
        omega
      have hgo := ih (by simpa using hflow) hcolumn' hafter (indentation (k + 1)) hfuel'
      have hstart := h.startsInk ('\n' :: (indentation m ++ rest))
      rw [plainText_gap hw hs (hw.plainLength (.inl rfl)) (by simp [hflow])
        (plainBlanks_run_blanks hend hstart.1) (by simp [indentation_succ]) (hafter ▸ hstart.2)
        (.inr hcolumn') hgo]
      simp [← Scan.ahead_add, Nat.add_assoc]
  | @fold w text out hw h ih =>
      obtain ⟨fuel, rfl⟩ : ∃ f, fuel = f + 1 := ⟨fuel - 1, by omega⟩
      rw [List.append_assoc, List.cons_append, List.append_assoc] at hs
      have hend : ((s.ahead w.length).allowing false).rest = _ := Scan.rest_ahead hs
      have hstart := h.startsInk ('\n' :: (indentation m ++ rest))
      have hfeed := Scan.ahead_feed (s := (s.ahead w.length).allowing false) hend
      have hafter : (((s.ahead w.length).allowing false).ahead (n + 1)).rest
          = out ++ '\n' :: (indentation m ++ rest) := by rw [hfeed]
      have hcolumn' : indent ≤ (((s.ahead w.length).allowing false).ahead (n + 1)).column := by
        rw [hfeed]
        exact hindent
      have hfuel' : out.length < fuel := by
        simp only [List.length_append, List.length_cons] at hfuel
        omega
      have hgo := ih (s := (((s.ahead w.length).allowing false).ahead (n + 1)).allowing true)
        (by simpa using hflow) hcolumn' hafter [' '] hfuel'
      rw [plainText_gap hw hs (hw.plainLength (.inl rfl)) (by simp [hflow])
        (plainBlanks_run_feed hend hstart.1 (isUnseparated_indentation hn _)) (by simp)
        (by rw [Scan.allowing_rest, hafter]; exact hstart.2) (.inr hcolumn') hgo]
      simp [← Scan.ahead_add, Nat.add_assoc, Nat.add_comm 1]

/-! ### Keys -/

theorem IsName.isWord {k : String} (h : IsName k) : IsWord k.toList :=
  (isCalm_of_letters h.toList_ne_nil h.letters).isWord

/-- A key is read up to its colon. -/
theorem IsName.plainText_run {k : String} (h : IsName k) {rest : List Char} (hflow : s.flow = 0)
    (hs : s.rest = k.toList ++ ':' :: rest) (hrest : endsToken rest.head? = true) (indent : Int)
    (fuel : Nat) :
    (plainText indent [] (fuel + 1)).run s
      = .ok (k.toList, (s.ahead k.toList.length).allowing false) := by
  have hcolon : ((s.ahead k.toList.length).allowing false).rest = indentation 0 ++ ':' :: rest :=
    Scan.rest_ahead hs
  rw [plainText_word h.isWord (h.isWord.plainLength (.inr ⟨rest, rfl, hrest⟩)) hs (by simp [hflow]),
    run_bind (plainBlanks_run_blanks hcolon (startsInk_cons (by decide) rest)), run_get_bind]
  rfl

end Yaml

end FormDesigner
