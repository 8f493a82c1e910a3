import FormDesigner.Proofs.Yaml.Passing

/-!
# Texts between quotes are read back

What may be written for a text between quotes is read as the text. The reader takes words, blanks
and line breaks as they come, so every statement is about what is written after a word that has been
begun already; between double quotes blanks may have been begun too.
-/

namespace FormDesigner

namespace Yaml

/-! ### Line breaks -/

/-- A text that does not begin with a blank. -/
def StartsUnblank (cs : List Char) : Prop := ∀ c ∈ cs.head?, c ≠ ' ' ∧ c ≠ '\t'

/-- A text that begins with neither a blank nor a line break. -/
def StartsInk (cs : List Char) : Prop := StartsUnblank cs ∧ ∀ c ∈ cs.head?, isBreak c = false

theorem isUnseparated_of_head {cs : List Char} (h : ∀ c ∈ cs.head?, c ≠ '-' ∧ c ≠ '.') :
    IsUnseparated cs := by
  rintro c hc a b d rest rfl ⟨rfl, -, -⟩
  have := h a rfl
  tauto

theorem isUnseparated_indentation {n : Nat} (hn : 0 < n) (cs : List Char) :
    IsUnseparated (indentation n ++ cs) := by
  obtain ⟨n, rfl⟩ := Nat.exists_eq_succ_of_ne_zero (Nat.ne_of_gt hn)
  refine isUnseparated_of_head fun c hc => ?_
  obtain rfl : ' ' = c := by simpa [indentation_succ] using hc
  decide

namespace IsKeptBreak

variable {b : Char}

theorem isBreak (h : IsKeptBreak b) : isBreak b = true := by
  rcases h with rfl | h
  · rfl
  · simp [Yaml.isBreak, h]

theorem ne (h : IsKeptBreak b) {c : Char} (hc : Yaml.isBreak c = false) : b ≠ c := by
  rintro rfl
  simp [h.isBreak] at hc

end IsKeptBreak

variable {s : Scan} {n : Nat}

theorem takeBlanks_run {cs : List Char} (h : s.rest = indentation n ++ cs)
    (hcs : StartsUnblank cs) :
    (takeWhile fun c => c == ' ' || c == '\t').run s = .ok (indentation n, s.ahead n) := by
  have hblanks : ∀ c ∈ indentation n, (c == ' ' || c == '\t') = true := fun c hc => by
    simp [List.eq_of_mem_replicate hc]
  have hink : ∀ c ∈ cs.head?, (c == ' ' || c == '\t') = false := fun c hc => by
    simp [(hcs c hc).1, (hcs c hc).2]
  simpa using takeWhile_run h hblanks hink

/-- Line breaks and the indentation behind them. -/
theorem quotedBreaks_run {bs cs : List Char} {fuel : Nat} (h : s.rest = bs ++ (indentation n ++ cs))
    (hn : 0 < n) (hbs : ∀ b ∈ bs, IsKeptBreak b) (hcs : StartsInk cs) (hfuel : bs.length < fuel) :
    (quotedBreaks fuel).run s = .ok (bs, s.ahead (bs.length + n)) := by
  induction bs generalizing s fuel with
  | nil =>
      cases fuel with
      | zero => cases hfuel
      | succ fuel =>
          have hink := Scan.rest_ahead_indentation h
          have hseparator : IsUnseparated s.rest := h ▸ isUnseparated_indentation hn cs
          rw [quotedBreaks, run_bind (atAnySeparator_run hseparator)]
          simp only [Bool.false_eq_true, if_false]
          rw [run_bind (takeBlanks_run h hcs.1), run_bind (lineBreak_run_none (hink ▸ hcs.2))]
          simp
          rfl
  | cons b bs ih =>
      cases fuel with
      | zero => cases hfuel
      | succ fuel =>
          obtain ⟨hb, hbs⟩ := List.forall_mem_cons.1 hbs
          have hhead : ∀ c ∈ s.rest.head?, b = c := fun c hc => by simpa [h] using hc
          have hseparator : IsUnseparated s.rest := isUnseparated_of_head fun c hc =>
            hhead c hc ▸ ⟨hb.ne rfl, hb.ne rfl⟩
          have hblank : StartsUnblank s.rest := fun c hc => hhead c hc ▸ ⟨hb.ne rfl, hb.ne rfl⟩
          have hrest := ih (Scan.rest_ahead_one h) hbs (Nat.lt_of_succ_lt_succ hfuel)
          rw [quotedBreaks, run_bind (atAnySeparator_run hseparator)]
          simp only [Bool.false_eq_true, if_false]
          rw [run_bind (takeBlanks_run (n := 0) rfl hblank), Scan.ahead_zero,
            run_bind (lineBreak_run h hb)]
          simp only [List.isEmpty_cons, Bool.false_eq_true, if_false]
          rw [run_bind hrest, ← Scan.ahead_add, List.length_cons]
          simp only [Nat.add_comm]
          rfl

/-- Blanks inside a line. -/
theorem quotedBlanks_run_blanks {cs : List Char} (h : s.rest = indentation n ++ cs) (hne : cs ≠ [])
    (hcs : StartsInk cs) : quotedBlanks.run s = .ok (indentation n, s.ahead n) := by
  have hrest := Scan.rest_ahead_indentation h
  have hsome : cs[0]?.isNone = false := by simpa using List.length_pos_iff.2 hne
  rw [quotedBlanks, run_bind (takeBlanks_run h hcs.1), run_bind (peek_run 0 _), hrest, hsome]
  simp only [Bool.false_eq_true, if_false]
  rw [run_bind (lineBreak_run_none (hrest ▸ hcs.2))]
  rfl

/-- Line breaks: the first one of several is dropped if it is a line feed, and a single one becomes
a blank. -/
theorem quotedBlanks_run_breaks {b : Char} {bs cs : List Char}
    (h : s.rest = b :: bs ++ (indentation n ++ cs)) (hn : 0 < n)
    (hbs : ∀ c ∈ b :: bs, IsKeptBreak c) (hcs : StartsInk cs) :
    quotedBlanks.run s = .ok (folded [b] bs, s.ahead (bs.length + 1 + n)) := by
  obtain ⟨hb, hbs⟩ := List.forall_mem_cons.1 hbs
  rw [List.cons_append] at h
  have hblank : StartsUnblank s.rest := fun c hc => by
    obtain rfl : b = c := by simpa [h] using hc
    exact ⟨hb.ne rfl, hb.ne rfl⟩
  have hrest := Scan.rest_ahead_one h
  have hfuel : bs.length < (s.ahead 1).rest.length + 1 := by
    rw [hrest, List.length_append]
    omega
  rw [quotedBlanks, run_bind (takeBlanks_run (n := 0) rfl hblank), Scan.ahead_zero,
    run_bind (peek_run 0 s)]
  simp only [h, List.getElem?_cons_zero, Option.isNone_some, Bool.false_eq_true, if_false]
  rw [run_bind (lineBreak_run h hb)]
  simp only [List.isEmpty_cons, Bool.false_eq_true, if_false]
  rw [run_get_bind, run_bind (quotedBreaks_run hrest hn hbs hcs hfuel), ← Scan.ahead_add]
  simp only [Nat.add_comm]
  rfl

theorem keptBreaks_head {bs : List Char} (hne : bs ≠ []) (hbs : ∀ b ∈ bs, IsKeptBreak b) :
    ∃ c cs, keptBreaks n bs = c :: cs ∧ (c = ' ' ∨ isBreak c = true) := by
  unfold keptBreaks
  split
  · exact ⟨'\n', _, rfl, .inr rfl⟩
  · cases bs with
    | nil => exact absurd rfl hne
    | cons b bs => exact ⟨b, _, rfl, .inr (hbs b (.head _)).isBreak⟩

theorem quotedBlanks_run_kept {bs cs : List Char} (h : s.rest = keptBreaks n bs ++ cs) (hn : 0 < n)
    (hne : bs ≠ []) (hbs : ∀ b ∈ bs, IsKeptBreak b) (hcs : StartsInk cs) :
    quotedBlanks.run s = .ok (bs, s.ahead (keptBreaks n bs).length) := by
  unfold keptBreaks at h ⊢
  split at h
  · next hfeed =>
      have hwritten : s.rest = '\n' :: bs ++ (indentation n ++ cs) := by simpa using h
      have hrun := quotedBlanks_run_breaks hwritten hn (List.forall_mem_cons.2 ⟨.inl rfl, hbs⟩) hcs
      simpa [folded, hne, hfeed, Nat.add_assoc, Nat.add_comm 1] using hrun
  · next hfeed =>
      cases bs with
      | nil => exact absurd rfl hne
      | cons b bs =>
          have hb : b ≠ '\n' := by simpa using hfeed
          have hwritten : s.rest = b :: bs ++ (indentation n ++ cs) := by simpa using h
          have hrun := quotedBlanks_run_breaks hwritten hn hbs hcs
          simpa [folded, hb, Nat.add_assoc, Nat.add_comm 1] using hrun

/-! ### Quoted texts -/

/-- Characters that stand for themselves between quotes of either kind. -/
def isOrdinary (c : Char) : Bool :=
  !(c == '\'' || c == '"' || c == '\\' || c == ' ' || c == '\t' || isBreak c)

/-- How the text goes on after a word, at a character that is not part of it. -/
def afterWord (quote : Char) (fuel : Nat) (w : List Char) : Char → List Char → Scanner (List Char)
  | c, rest =>
    if c == quote then
      if quote == '\'' && rest.head? == some '\'' then do
        forward 2
        return w ++ '\'' :: (← quotedText quote fuel)
      else do
        forward 1
        return w
    else if c == '\\' && quote == '"' then do
      forward 1
      let ds ← backslashed
      return w ++ ds ++ (← quotedText quote fuel)
    else if c == '\'' || c == '"' || c == '\\' then do
      forward 1
      return w ++ c :: (← quotedText quote fuel)
    else do
      let ds ← quotedBlanks
      return w ++ ds ++ (← quotedText quote fuel)

theorem quotedText_word {quote c : Char} {w rest : List Char} (h : s.rest = w ++ c :: rest)
    (hw : ∀ d ∈ w, isOrdinary d = true) (hc : isOrdinary c = false) (fuel : Nat) :
    (quotedText quote (fuel + 1)).run s
      = (afterWord quote fuel w c rest).run (s.ahead w.length) := by
  have htake : (takeWhile isOrdinary).run s = .ok (w, s.ahead w.length) :=
    takeWhile_run h hw (by simpa using hc)
  rw [quotedText]
  change (takeWhile isOrdinary >>= _).run s = _
  rw [run_bind htake, run_get_bind, Scan.rest_ahead h]
  rfl

/-- After a word that has been begun, `m` characters are read as the rest of a text. -/
def ReadsText (quote : Char) (rest : List Char) (m : Nat) (x : List Char) : Prop :=
  ∀ (s : Scan) (w : List Char) (fuel : Nat), (∀ d ∈ w, isOrdinary d = true) → s.rest = w ++ rest →
    m ≤ fuel → (quotedText quote fuel).run s = .ok (w ++ x, s.ahead (w.length + m))

namespace ReadsText

variable {quote c : Char} {rest gs ds x : List Char} {m : Nat}

/-- Before any word has been begun. -/
theorem run (h : ReadsText quote rest m x) {t : Scan} (ht : t.rest = rest) {fuel : Nat}
    (hfuel : m ≤ fuel) : (quotedText quote fuel).run t = .ok (x, t.ahead m) := by
  simpa using h t [] fuel (List.forall_mem_nil _) ht hfuel

/-- The quote at the end. -/
theorem close (hquote : quote = '\'' ∨ quote = '"')
    (hrest : quote = '\'' → rest.head? ≠ some '\'') : ReadsText quote (quote :: rest) 1 [] := by
  intro s w fuel hw hs hfuel
  obtain ⟨fuel, rfl⟩ := Nat.exists_eq_add_of_le' hfuel
  have hordinary : isOrdinary quote = false := by rcases hquote with rfl | rfl <;> rfl
  have htwice : (quote == '\'' && rest.head? == some '\'') = false := by
    rcases hquote with rfl | rfl
    · simpa using hrest rfl
    · rfl
  rw [quotedText_word hs hw hordinary, afterWord]
  simp only [htwice, beq_self_eq_true, Bool.false_eq_true, if_false, if_true]
  rw [run_bind (forward_run 1 _), ← Scan.ahead_add]
  exact run_pure_ahead (List.append_nil w).symm rfl s

/-- A character that goes on with the word. -/
theorem ordinary (hc : isOrdinary c = true) (h : ReadsText quote rest m x) :
    ReadsText quote (c :: rest) (m + 1) (c :: x) := by
  intro s w fuel hw hs hfuel
  have hw' : ∀ d ∈ w ++ [c], isOrdinary d = true :=
    List.forall_mem_append.2 ⟨hw, List.forall_mem_singleton.2 hc⟩
  have hword := h s (w ++ [c]) fuel hw' (by simpa using hs) (Nat.le_of_succ_le hfuel)
  exact run_ahead_congr hword (by simp) (by simp; omega)

/-- A mark that means nothing between quotes of this kind. -/
theorem mark (hclose : c ≠ quote) (hc : c = '\'' ∨ c = '"' ∨ c = '\\' ∧ quote ≠ '"')
    (h : ReadsText quote rest m x) : ReadsText quote (c :: rest) (m + 1) (c :: x) := by
  intro s w fuel hw hs hfuel
  obtain ⟨fuel, rfl⟩ := Nat.exists_eq_add_of_le' (Nat.le_trans (Nat.le_add_left 1 m) hfuel)
  have hordinary : isOrdinary c = false := by rcases hc with rfl | rfl | ⟨rfl, -⟩ <;> rfl
  have hescape : (c == '\\' && quote == '"') = false := by
    rcases hc with rfl | rfl | ⟨rfl, hquote⟩
    · rfl
    · rfl
    · simpa using hquote
  have hmark : (c == '\'' || c == '"' || c == '\\') = true := by
    rcases hc with rfl | rfl | ⟨rfl, -⟩ <;> rfl
  have hrun := h.run (Scan.rest_ahead_one (Scan.rest_ahead hs)) (Nat.le_of_succ_le_succ hfuel)
  rw [quotedText_word hs hw hordinary, afterWord]
  simp only [beq_eq_false_iff_ne.2 hclose, hescape, hmark, Bool.false_eq_true, if_false, if_true]
  rw [run_bind (forward_run 1 _), run_bind hrun, ← Scan.ahead_add, ← Scan.ahead_add]
  exact run_pure_ahead rfl (by omega) s

/-- A single quote that is written twice. -/
theorem twice (h : ReadsText '\'' rest m x) :
    ReadsText '\'' ('\'' :: '\'' :: rest) (m + 2) ('\'' :: x) := by
  intro s w fuel hw hs hfuel
  obtain ⟨fuel, rfl⟩ := Nat.exists_eq_add_of_le' (Nat.le_trans (Nat.le_add_left 1 (m + 1)) hfuel)
  have hrest : (s.ahead (w.length + 2)).rest = rest := by
    rw [Scan.ahead_add, Scan.ahead_rest, Scan.rest_ahead hs]
    rfl
  rw [quotedText_word hs hw (by decide), afterWord]
  simp only [beq_self_eq_true, List.head?_cons, Bool.and_self, if_true]
  rw [run_bind (forward_run 2 _), ← Scan.ahead_add, run_bind (h.run hrest (by omega)),
    ← Scan.ahead_add]
  exact run_pure_ahead rfl (by omega) s

/-- A gap, and what follows it. -/
theorem gap (hquote : quote = '\'' ∨ quote = '"')
    (hgap : ∃ c cs, gs = c :: cs ∧ (c = ' ' ∨ isBreak c = true))
    (hds : ∀ t : Scan, t.rest = gs ++ rest → quotedBlanks.run t = .ok (ds, t.ahead gs.length))
    (h : ReadsText quote rest m x) : ReadsText quote (gs ++ rest) (gs.length + m) (ds ++ x) := by
  intro s w fuel hw hs hfuel
  obtain ⟨c, cs, rfl, hc⟩ := hgap
  have hpos : 1 ≤ (c :: cs).length := Nat.succ_pos _
  obtain ⟨fuel, rfl⟩ := Nat.exists_eq_add_of_le'
    (Nat.le_trans hpos (Nat.le_trans (Nat.le_add_right _ m) hfuel))
  have hne : ∀ d : Char, d ≠ ' ' → isBreak d = false → (c == d) = false := by
    intro d hblank hbreak
    rw [beq_eq_false_iff_ne]
    rintro rfl
    rcases hc with rfl | hc
    · exact hblank rfl
    · simp [hbreak] at hc
  have hordinary : isOrdinary c = false := by
    rcases hc with rfl | hc
    · rfl
    · simp [isOrdinary, hc]
  have hclose : (c == quote) = false := by
    rcases hquote with rfl | rfl <;> exact hne _ (by decide) rfl
  have hrun := h.run (Scan.rest_ahead (Scan.rest_ahead hs)) (show m ≤ fuel by omega)
  rw [quotedText_word hs hw hordinary, afterWord]
  simp only [hclose, hne '\\' (by decide) rfl, hne '\'' (by decide) rfl, hne '"' (by decide) rfl,
    Bool.false_and, Bool.or_self, Bool.false_eq_true, if_false]
  rw [run_bind (hds _ (Scan.rest_ahead hs)), run_bind hrun, ← Scan.ahead_add, ← Scan.ahead_add]
  exact run_pure_ahead (List.append_assoc _ _ _) rfl s

/-- An escape, and what follows it. -/
theorem escape {e : List Char}
    (he : ∀ t : Scan, t.rest = e ++ rest → backslashed.run t = .ok (ds, t.ahead e.length))
    (h : ReadsText '"' rest m x) :
    ReadsText '"' ('\\' :: (e ++ rest)) (e.length + 1 + m) (ds ++ x) := by
  intro s w fuel hw hs hfuel
  obtain ⟨fuel, rfl⟩ := Nat.exists_eq_add_of_le' (Nat.le_trans (by omega : 1 ≤ _) hfuel)
  have hnext := Scan.rest_ahead_one (Scan.rest_ahead hs)
  have hclose : ('\\' == '"') = false := by decide
  have hrun := h.run (Scan.rest_ahead hnext) (show m ≤ fuel by omega)
  rw [quotedText_word hs hw (by decide), afterWord]
  simp only [hclose, beq_self_eq_true, Bool.and_self, Bool.false_eq_true, if_false, if_true]
  rw [run_bind (forward_run 1 _), run_bind (he _ hnext), run_bind hrun, ← Scan.ahead_add,
    ← Scan.ahead_add, ← Scan.ahead_add]
  exact run_pure_ahead (List.append_assoc _ _ _) (by omega) s

end ReadsText

/-! ### Single quotes -/

theorem isKeptBreak_of_isTextBreak {c : Char} (hc : isTextBreak c = true) (hkept : c ≠ nextLine) :
    IsKeptBreak c := by
  simp only [isTextBreak, Bool.or_eq_true, beq_iff_eq] at hc
  have hnext : c.toNat ≠ 0x85 := fun h => hkept (by rw [← Char.ofNat_toNat c, h]; rfl)
  rcases hc with ((hc | hc) | hc) | hc
  · exact .inl hc
  · exact absurd hc hnext
  · exact .inr (by simp [isSeparator, hc])
  · exact .inr (by simp [isSeparator, hc])

/-- A character of a quotable text that is no gap is no break for the reader. -/
theorem isInk_of_not_special {c : Char} (hgap : isGapChar c = false)
    (hspecial : isSpecial true c = false) : c ≠ ' ' ∧ c ≠ '\t' ∧ isBreak c = false := by
  have hreturn : c ≠ '\r' := (isClean_of_not_special hspecial).2
  have htab : c ≠ '\t' := by
    rintro rfl
    exact absurd hspecial (by decide)
  simp only [isGapChar, isTextBreak, Bool.or_eq_false_iff, beq_eq_false_iff_ne] at hgap
  refine ⟨hgap.1, htab, ?_⟩
  simp only [isBreak, isSeparator, Bool.or_eq_false_iff, beq_eq_false_iff_ne]
  exact ⟨⟨⟨hgap.2.1.1.1, hreturn⟩, hgap.2.1.1.2⟩, hgap.2.1.2, hgap.2.2⟩

/-- What is written for a text that begins with a word begins with ink, and so does what ends it. -/
theorem Folded.startsInk {n : Nat} {text out tail : List Char} (h : Folded doubled n text out)
    (hspecial : ∀ c ∈ text, isSpecial true c = false) (hword : StartsWord text) :
    StartsInk (out ++ '\'' :: tail) := by
  have hmark : StartsInk ('\'' :: tail) := ⟨by simp [StartsUnblank], by simp [isBreak, isSeparator]⟩
  cases h with
  | nil => exact hmark
  | @char c text out hc rest =>
      have hink := isInk_of_not_special hc (hspecial c (.head _))
      unfold doubled
      split
      · exact ⟨by simp [StartsUnblank], by simp [isBreak, isSeparator]⟩
      · exact ⟨by simpa [StartsUnblank] using ⟨hink.1, hink.2.1⟩, by simpa using hink.2.2⟩
  | @blanks k text out hk _ _ =>
      obtain ⟨k, rfl⟩ := Nat.exists_eq_succ_of_ne_zero (Nat.ne_of_gt hk)
      exact absurd (hword ' ' rfl) (by decide)
  | fold => exact absurd (hword ' ' rfl) (by decide)
  | @breaks bs text out nonempty hbs _ _ =>
      cases bs with
      | nil => exact absurd rfl nonempty
      | cons b bs =>
          have := hword b rfl
          simp [isGapChar, hbs b (.head _)] at this

/-- What is written between single quotes is read as the text. -/
theorem Folded.readsText {n : Nat} {text out tail : List Char} (h : Folded doubled n text out)
    (hn : 0 < n) (htext : ∀ c ∈ text, c ≠ nextLine ∧ isSpecial true c = false)
    (htail : tail.head? ≠ some '\'') :
    ReadsText '\'' (out ++ '\'' :: tail) (out.length + 1) text := by
  induction h with
  | nil => exact .close (.inl rfl) fun _ => htail
  | @char c text out hc rest ih =>
      obtain ⟨hfirst, hrest⟩ := List.forall_mem_cons.1 htext
      have hink := isInk_of_not_special hc hfirst.2
      by_cases hquote : c = '\''
      · subst hquote
        exact (ih hrest).twice
      · have hdoubled : doubled c = [c] := if_neg hquote
        rw [hdoubled]
        by_cases hordinary : isOrdinary c = true
        · exact (ih hrest).ordinary hordinary
        · have hmark : c = '\'' ∨ c = '"' ∨ c = '\\' ∧ '\'' ≠ '"' := by
            simp only [isOrdinary, Bool.not_eq_true, Bool.not_eq_false', Bool.or_eq_true,
              beq_iff_eq, hink.1, hink.2.1, hink.2.2, Bool.false_eq_true, or_false] at hordinary
            rcases hordinary with (h | h) | h
            · exact .inl h
            · exact .inr (.inl h)
            · exact .inr (.inr ⟨h, by decide⟩)
          exact (ih hrest).mark hquote hmark
  | @blanks k text out hk hword rest ih =>
      obtain ⟨-, hrest⟩ := List.forall_mem_append.1 htext
      have hink : StartsInk (out ++ '\'' :: tail) :=
        rest.startsInk (fun c hc => (hrest c hc).2) hword
      have hgap : ∃ c cs, indentation k = c :: cs ∧ (c = ' ' ∨ isBreak c = true) := by
        obtain ⟨k, rfl⟩ := Nat.exists_eq_succ_of_ne_zero (Nat.ne_of_gt hk)
        exact ⟨' ', _, rfl, .inl rfl⟩
      have := (ih hrest).gap (.inl rfl) hgap fun t ht => by
        simpa using quotedBlanks_run_blanks ht (by simp) hink
      simpa [Nat.add_assoc] using this
  | @fold text out hword rest ih =>
      obtain ⟨-, hrest⟩ := List.forall_mem_cons.1 htext
      have hink : StartsInk (out ++ '\'' :: tail) :=
        rest.startsInk (fun c hc => (hrest c hc).2) hword
      have hfold : ∀ t : Scan, t.rest = '\n' :: indentation n ++ (out ++ '\'' :: tail) →
          quotedBlanks.run t = .ok ([' '], t.ahead ('\n' :: indentation n).length) := by
        intro t ht
        have hfeed : ∀ c ∈ ['\n'], IsKeptBreak c := List.forall_mem_singleton.2 (.inl rfl)
        simpa [folded, Nat.add_comm] using quotedBlanks_run_breaks ht hn hfeed hink
      have := (ih hrest).gap (.inl rfl) ⟨'\n', _, rfl, .inr rfl⟩ hfold
      simpa [Nat.add_assoc, Nat.add_comm 1] using this
  | @breaks bs text out nonempty hbs hword rest ih =>
      obtain ⟨hbs', hrest⟩ := List.forall_mem_append.1 htext
      have hink : StartsInk (out ++ '\'' :: tail) :=
        rest.startsInk (fun c hc => (hrest c hc).2) hword
      have hkept : ∀ b ∈ bs, IsKeptBreak b := fun b hb =>
        isKeptBreak_of_isTextBreak (hbs b hb) (hbs' b hb).1
      have := (ih hrest).gap (.inl rfl) (keptBreaks_head nonempty hkept) fun t ht =>
        quotedBlanks_run_kept ht hn nonempty hkept hink
      simpa [Nat.add_assoc] using this

/-! ### Double quotes -/

theorem hexValue?_capital {d : Nat} (hd : d < 16) :
    Json.hexValue? (Text.hexDigit d).toUpper = some d := by
  have : ∀ d < 16, Json.hexValue? (Text.hexDigit d).toUpper = some d := by decide
  exact this d hd

/-- Hexadecimal digits are read as the end of the number that they are the end of. -/
theorem mapM_capitalHex (width m : Nat) : ∃ vs, (capitalHex width m).mapM Json.hexValue? = some vs ∧
    ∀ acc, vs.foldl (fun n v => n * 16 + v) acc = acc * 16 ^ width + m % 16 ^ width := by
  induction width generalizing m with
  | zero => exact ⟨[], rfl, fun acc => by simp [Nat.mod_one]⟩
  | succ width ih =>
      obtain ⟨vs, hvs, hsum⟩ := ih (m / 16)
      have hdigit := hexValue?_capital (Nat.mod_lt m (by decide : 0 < 16))
      have happend : capitalHex (width + 1) m
          = capitalHex width (m / 16) ++ [(Text.hexDigit (m % 16)).toUpper] := by
        simp [capitalHex, Text.hexDigits]
      refine ⟨vs ++ [m % 16], ?_, fun acc => ?_⟩
      · rw [happend, List.mapM_append, hvs]
        simp [hdigit]
      · rw [List.foldl_append, hsum, List.foldl_cons, List.foldl_nil, Nat.pow_succ', Nat.mod_mul]
        have hshift : acc * (16 * 16 ^ width) = acc * 16 ^ width * 16 := by
          rw [Nat.mul_comm 16, Nat.mul_assoc]
        rw [hshift]
        omega

@[simp] theorem length_capitalHex (width m : Nat) : (capitalHex width m).length = width := by
  induction width generalizing m with
  | zero => rfl
  | succ width ih =>
      have := ih (m / 16)
      simp only [capitalHex, List.length_map] at this
      simp [capitalHex, Text.hexDigits, this]

theorem charOfCode_run (c : Char) (s : Scan) : (charOfCode c.toNat).run s = .ok (c, s) := by
  have hvalid : c.toNat < 0xd800 ∨ 0xdfff < c.toNat ∧ c.toNat < 0x110000 := c.valid
  have hsurrogate : (decide (0xd800 ≤ c.toNat) && decide (c.toNat < 0xe000)) = false := by
    simp only [Bool.and_eq_false_iff, decide_eq_false_iff_not]
    omega
  rw [charOfCode, if_pos (by omega), hsurrogate, Char.ofNat_toNat]
  rfl

theorem codedChar_run {c : Char} {width : Nat} {rest : List Char} (hc : c.toNat < 16 ^ width)
    (h : s.rest = capitalHex width c.toNat ++ rest) :
    (codedChar width).run s = .ok (c, s.ahead width) := by
  obtain ⟨vs, hvs, hsum⟩ := mapM_capitalHex width c.toNat
  have hcode : vs.foldl (fun n v => n * 16 + v) 0 = c.toNat := by
    rw [hsum, Nat.mod_eq_of_lt hc]
    omega
  have htake : s.rest.take width = capitalHex width c.toNat := by
    rw [h, List.take_left' (length_capitalHex _ _)]
  rw [codedChar, run_get_bind]
  simp only [htake, length_capitalHex, bne_self_eq_false, Bool.false_eq_true, if_false, hvs]
  rw [run_bind (forward_run width s), hcode]
  exact charOfCode_run c _

theorem shortEscape?_escapeLetter? {c l : Char} (h : escapeLetter? c = some l) :
    shortEscape? l = some c := by
  have hletters : ∀ p ∈ [(0x0, '0'), (0x7, 'a'), (0x8, 'b'), (0x9, 't'), (0xa, 'n'), (0xb, 'v'),
      (0xc, 'f'), (0xd, 'r'), (0x1b, 'e'), (0x22, '"'), (0x5c, '\\'), (0x85, 'N'), (0xa0, '_'),
      (0x2028, 'L'), (0x2029, 'P')], shortEscape? p.2 = some (Char.ofNat p.1) := by decide
  obtain ⟨before, after, hlist, -⟩ := List.lookup_eq_some_iff.1 h
  have := hletters (c.toNat, l) (hlist ▸ List.mem_append_right _ (.head _))
  rwa [Char.ofNat_toNat] at this

theorem backslashed_run_letter {l c : Char} {rest : List Char} (hl : shortEscape? l = some c)
    (h : s.rest = l :: rest) : backslashed.run s = .ok ([c], s.ahead 1) := by
  rw [backslashed, run_bind (peek_run 0 s)]
  simp only [h, List.getElem?_cons_zero, hl]
  rw [run_bind (forward_run 1 s)]
  rfl

theorem backslashed_run_code {l c : Char} {width : Nat} {rest : List Char}
    (hl : shortEscape? l = none) (hwidth : codeWidth? l = some width) (hc : c.toNat < 16 ^ width)
    (h : s.rest = l :: capitalHex width c.toNat ++ rest) :
    backslashed.run s = .ok ([c], s.ahead (width + 1)) := by
  rw [List.cons_append] at h
  rw [backslashed, run_bind (peek_run 0 s)]
  simp only [h, List.getElem?_cons_zero, hl, hwidth]
  rw [run_bind (forward_run 1 s), run_bind (codedChar_run hc (Scan.rest_ahead_one h)),
    ← Scan.ahead_add, Nat.add_comm]
  rfl

/-- The end of a line is passed over with the indentation of the next one. -/
theorem backslashed_run_feed {rest : List Char} (h : s.rest = '\n' :: (indentation n ++ rest))
    (hn : 0 < n) (hrest : StartsInk rest) : backslashed.run s = .ok ([], s.ahead (n + 1)) := by
  have hfeed : shortEscape? '\n' = none ∧ codeWidth? '\n' = none := ⟨rfl, rfl⟩
  have hnext : (s.ahead 1).rest = [] ++ (indentation n ++ rest) := Scan.rest_ahead_one h
  rw [backslashed, run_bind (peek_run 0 s)]
  simp only [h, List.getElem?_cons_zero, hfeed.1, hfeed.2]
  rw [if_pos (by decide : isBreak '\n' = true), run_bind (lineBreak_run h (.inl rfl)), run_get_bind,
    quotedBreaks_run hnext hn (List.forall_mem_nil _) hrest (Nat.succ_pos _),
    ← Scan.ahead_add]
  simp [Nat.add_comm]

/-- An escape is read as the character that it was written for. -/
theorem backslashed_run {unicode : Bool} {c : Char} {e : String}
    (he : doubleEscape? unicode c = some e) :
    ∃ ds, e.toList = '\\' :: ds ∧ ∀ (s : Scan) (rest : List Char), s.rest = ds ++ rest →
      backslashed.run s = .ok ([c], s.ahead ds.length) := by
  have hc : c.toNat < 16 ^ 8 := by
    have hvalid : c.toNat < 0xd800 ∨ 0xdfff < c.toNat ∧ c.toNat < 0x110000 := c.valid
    omega
  unfold doubleEscape? at he
  dsimp only at he
  split at he
  · cases he
  · obtain rfl := Option.some.inj he
    refine ⟨_, String.toList_ofList, fun s rest => ?_⟩
    split
    · next l hl => exact backslashed_run_letter (shortEscape?_escapeLetter? hl)
    · split
      · next hx =>
          intro hs
          simpa using backslashed_run_code rfl rfl (by omega) hs
      · split
        · next hu =>
            intro hs
            simpa using backslashed_run_code rfl rfl (by omega) hs
        · intro hs
          simpa using backslashed_run_code rfl rfl hc hs

theorem startsInk_cons {c : Char} (hc : c ≠ ' ' ∧ c ≠ '\t' ∧ isBreak c = false) (cs : List Char) :
    StartsInk (c :: cs) :=
  ⟨by simpa [StartsUnblank] using ⟨hc.1, hc.2.1⟩, by simpa using hc.2.2⟩

/-- What is written for a text that does not begin with a blank begins with ink. -/
theorem Escaped.startsInk {unicode : Bool} {text out : List Char} (h : Escaped unicode n text out)
    (htext : text.head? ≠ some ' ') (tail : List Char) : StartsInk (out ++ '"' :: tail) := by
  cases h with
  | nil => exact startsInk_cons (by decide) tail
  | @char c text out hc _ =>
      have hdirect := isDirect_of_not_escaped hc
      have hblank : c ≠ ' ' := by simpa using htext
      exact startsInk_cons ⟨hblank, hdirect.tab, hdirect.break'⟩ _
  | @escape c e text out hc _ =>
      obtain ⟨ds, hds, -⟩ := backslashed_run hc
      rw [hds]
      exact startsInk_cons (by decide) _
  | fold _ _ => exact startsInk_cons (by decide) _
  | foldBlank _ => exact startsInk_cons (by decide) _

/-- Blanks that have been begun are followed by what does not begin with a blank. -/
theorem ReadsText.blanks {rest x : List Char} {m : Nat} (hne : rest ≠ []) (hink : StartsInk rest)
    (h : ReadsText '"' rest m x) (k : Nat) :
    ReadsText '"' (indentation k ++ rest) (k + m) (indentation k ++ x) := by
  cases k with
  | zero => simpa [indentation] using h
  | succ k =>
      have hblanks : ∀ t : Scan, t.rest = indentation (k + 1) ++ rest →
          quotedBlanks.run t = .ok (indentation (k + 1), t.ahead (indentation (k + 1)).length) :=
        fun t ht => by simpa using quotedBlanks_run_blanks ht hne hink
      have hfirst : ∃ c cs, indentation (k + 1) = c :: cs ∧ (c = ' ' ∨ isBreak c = true) :=
        ⟨' ', _, rfl, .inl rfl⟩
      simpa using h.gap (.inr rfl) hfirst hblanks

/-- The end of a line, and what follows on the next one. -/
theorem ReadsText.lineEnd {rest x : List Char} {m : Nat} (hn : 0 < n) (hink : StartsInk rest)
    (h : ReadsText '"' rest m x) :
    ReadsText '"' (lineEnd n ++ rest) ((lineEnd n).length + m) x := by
  have hfeed : ∀ t : Scan, t.rest = '\n' :: indentation n ++ rest →
      backslashed.run t = .ok ([], t.ahead ('\n' :: indentation n).length) :=
    fun t ht => by simpa using backslashed_run_feed ht hn hink
  simpa [Yaml.lineEnd] using h.escape hfeed

/-- What is written between double quotes is read as the text. By induction on what is written; `k`
blanks have been begun. -/
theorem Escaped.readsText {unicode : Bool} {text out : List Char} (h : Escaped unicode n text out)
    (hn : 0 < n) (tail : List Char) (k : Nat) :
    ReadsText '"' (indentation k ++ (out ++ '"' :: tail)) (k + (out.length + 1))
      (indentation k ++ text) := by
  induction h generalizing k with
  | nil =>
      have hink : StartsInk ('"' :: tail) := startsInk_cons (by decide) tail
      exact ReadsText.blanks (by simp) hink (.close (.inr rfl) fun h => absurd h (by decide)) k
  | @char c text out hc rest ih =>
      have hdirect := isDirect_of_not_escaped hc
      have hrest : ReadsText '"' (out ++ '"' :: tail) (out.length + 1) text := by
        simpa [indentation] using ih 0
      by_cases hblank : c = ' '
      · -- A blank more has been begun.
        subst hblank
        have hgather : ∀ cs, indentation k ++ ' ' :: cs = indentation (k + 1) ++ cs := fun cs => by
          simp [indentation, List.replicate_succ']
        have hsize : k + 1 + (out.length + 1) = k + ((' ' :: out).length + 1) := by
          rw [List.length_cons]
          omega
        rw [List.cons_append, hgather, hgather, ← hsize]
        exact ih (k + 1)
      · have hink := (Escaped.char hc rest).startsInk (by simpa using hblank) tail
        refine ReadsText.blanks (by simp) hink ?_ k
        by_cases hordinary : isOrdinary c = true
        · exact hrest.ordinary hordinary
        · have hquote : c = '\'' := by
            simpa [isOrdinary, hdirect.quote, hdirect.backslash, hblank, hdirect.tab,
              hdirect.break'] using hordinary
          exact hrest.mark hdirect.quote (.inl hquote)
  | @escape c e text out hc rest ih =>
      obtain ⟨ds, hds, hrun⟩ := backslashed_run hc
      have hrest : ReadsText '"' (out ++ '"' :: tail) (out.length + 1) text := by
        simpa [indentation] using ih 0
      have hblank : (c :: text).head? ≠ some ' ' := by
        rintro heq
        obtain rfl := Option.some.inj heq
        simp [doubleEscape?] at hc
      refine ReadsText.blanks (by simp) ((Escaped.escape hc rest).startsInk hblank tail) ?_ k
      have := hrest.escape fun t ht => hrun t _ ht
      simpa [hds, Nat.add_assoc, Nat.add_left_comm] using this
  | @fold text out hblank rest ih =>
      have hrest : ReadsText '"' (out ++ '"' :: tail) (out.length + 1) text := by
        simpa [indentation] using ih 0
      have hink := rest.startsInk hblank tail
      refine ReadsText.blanks (by simp) ((Escaped.fold hblank rest).startsInk hblank tail) ?_ k
      simpa [Nat.add_assoc] using hrest.lineEnd hn hink
  | @foldBlank text out rest ih =>
      have hrest : ReadsText '"' (out ++ '"' :: tail) (out.length + 1) text := by
        simpa [indentation] using ih 0
      have hspace : ReadsText '"' ('\\' :: ' ' :: (out ++ '"' :: tail)) (2 + (out.length + 1))
          (' ' :: text) :=
        hrest.escape (e := [' ']) fun t ht => backslashed_run_letter rfl ht
      have hink : StartsInk (Yaml.lineEnd n ++ '\\' :: ' ' :: out ++ '"' :: tail) :=
        startsInk_cons (by decide) _
      refine ReadsText.blanks (by simp) hink ?_ k
      have := hspace.lineEnd hn (startsInk_cons (by decide) _)
      simpa [Nat.add_assoc, Nat.add_comm 2] using this

end Yaml

end FormDesigner
