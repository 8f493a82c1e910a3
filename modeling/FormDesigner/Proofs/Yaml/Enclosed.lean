import FormDesigner.Proofs.Yaml.Inline
import FormDesigner.Proofs.Yaml.Standing

/-!
# Scanning between brackets

Between brackets, indentation means nothing and no key has to begin anywhere, so all that matters of
a scan are the text that is left, the tokens and how many brackets are open. A plain scalar ends at
the comma or the bracket after it, and may go on over the end of a line.
-/

namespace FormDesigner

namespace Yaml

variable {s t : Scan} {n : Nat}

/-! ### Places that may be forgotten -/

namespace Scan

/-- No key has to begin at a place that is remembered. -/
def IsIdle (s : Scan) : Prop := ∀ p ∈ s.places, p.2.required = false

/-- The scan with other places remembered. -/
def recalling (s : Scan) (places : List (Nat × KeyPlace)) : Scan := { s with places := places }

theorem IsIdle.filter (h : s.IsIdle) (p : Nat × KeyPlace → Bool) :
    (s.recalling (s.places.filter p)).IsIdle := fun _ hq => h _ (List.mem_of_mem_filter hq)

end Scan

/-- A step of scanning changes nothing but the places that are remembered. -/
def Forgets (x : Scanner Unit) (s : Scan) : Prop :=
  ∃ places, x.run s = .ok ((), s.recalling places) ∧ (s.recalling places).IsIdle

theorem forgets_dropStale (h : s.IsIdle) : Forgets dropStale s := by
  have hany : (s.places.any fun p => (p.2.line != s.line || decide (p.2.index + 1024 < s.index))
      && p.2.required) = false :=
    List.any_eq_false.2 fun p hp => by simp [h p hp]
  refine ⟨s.places.filter fun p => !(p.2.line != s.line || decide (p.2.index + 1024 < s.index)), ?_,
    h.filter _⟩
  rw [dropStale, run_get_bind]
  simp only [hany, Bool.false_eq_true, if_false]
  rfl

theorem forgets_dropPlace (h : s.IsIdle) : Forgets dropPlace s := by
  cases hlookup : s.places.lookup s.flow with
  | none => exact ⟨s.places, dropPlace_run hlookup, h⟩
  | some place =>
      obtain ⟨before, after, hplaces, -⟩ := List.lookup_eq_some_iff.1 hlookup
      have hrequired : place.required = false := by
        refine h (s.flow, place) ?_
        rw [hplaces]
        exact List.mem_append_right _ (.head _)
      refine ⟨s.places.filter fun p => p.1 != s.flow, ?_, h.filter _⟩
      rw [dropPlace, run_get_bind, hlookup]
      simp only [hrequired, Bool.false_eq_true, if_false]
      rfl

theorem forgets_savePlace (h : s.IsIdle) (hindent : s.indent ≠ s.column) :
    Forgets savePlace s := by
  cases hkey : s.keyAllowed with
  | false =>
      refine ⟨s.places, ?_, h⟩
      rw [savePlace, run_get_bind, hkey]
      rfl
  | true =>
      obtain ⟨places, hdrop, hidle⟩ := forgets_dropPlace h
      refine ⟨(s.flow, s.place) :: places, ?_, List.forall_mem_cons.2 ⟨?_, hidle⟩⟩
      · rw [savePlace, run_get_bind, hkey, if_pos rfl, run_bind hdrop]
        rfl
      · exact Bool.and_eq_false_iff.2 (.inr (beq_eq_false_iff_ne.2 hindent))

/-! ### Where scanning stands -/

/-- Scanning stands before some text, in no collection in block style and between as many brackets
as are open. -/
structure Scan.StandsIn (s : Scan) (depth : Nat) (rest : List Char) (tokens : List Token) :
    Prop where
  rest : s.rest = rest
  flow : s.flow = depth
  indent : s.indent = -1
  outer : s.outer = []
  idle : s.IsIdle
  tokens : s.tokens.toList = tokens

/-- Neither a document nor a directive begins with the character. -/
theorem Scan.isInside_of_head {c : Char} {rest : List Char} (h : s.rest = c :: rest)
    (hc : c ≠ '-' ∧ c ≠ '.' ∧ c ≠ '%') : s.IsInside := by
  refine .inr ⟨isUnseparated_of_head fun d hd => ?_, ?_⟩
  · obtain rfl : c = d := by simpa [h] using hd
    exact ⟨hc.1, hc.2.1⟩
  · rw [h]
    simpa using hc.2.2

namespace Scan.StandsIn

variable {depth : Nat} {rest : List Char} {ts : List Token}

theorem settled (hs : s.StandsIn depth rest ts) (n : Nat) : s.indent ≤ n := by
  rw [hs.indent]
  omega

theorem indent_ne (hs : s.StandsIn depth rest ts) : s.indent ≠ s.column := by
  rw [hs.indent]
  omega

/-- To the next token on the line. -/
theorem inline {k : Nat} (hs : s.StandsIn depth (indentation k ++ rest) ts)
    (hrest : StartsToken rest) :
    ∃ t, Comes s t ∧ t.StandsIn depth rest ts ∧ t.column = s.column + k := by
  have hinline := Scan.ahead_inline hs.rest (Scan.isInline_indentation k)
  rw [length_indentation] at hinline
  have hidle : (s.ahead k).IsIdle := by
    rw [hinline]
    exact hs.idle
  obtain ⟨places, hrun, hidle'⟩ := forgets_dropStale hidle
  refine ⟨(s.ahead k).recalling places, ⟨_, ?_, ?_, .refl _⟩, ?_, ?_⟩
  · rw [arrive, run_get_bind, run_bind (skipToToken_run hs.rest hrest _), hrun]
  · change (s.ahead k).rest.length ≤ s.rest.length
    simp
  · rw [hinline] at hidle' ⊢
    exact ⟨rfl, hs.flow, hs.indent, hs.outer, hidle', hs.tokens⟩
  · rw [hinline]
    rfl

/-- To the first token of the next line. -/
theorem feed {k : Nat} (hs : s.StandsIn depth ('\n' :: (indentation k ++ rest)) ts)
    (hrest : StartsToken rest) :
    ∃ t, Comes s t ∧ t.StandsIn depth rest ts ∧ t.column = k := by
  have hfeed := Scan.ahead_feed hs.rest
  obtain ⟨b, hb⟩ : ∃ b, b = (s.flow == 0 || s.keyAllowed) := ⟨_, rfl⟩
  have hidle : ((s.ahead (k + 1)).allowing b).IsIdle := by
    rw [hfeed]
    exact hs.idle
  obtain ⟨places, hrun, hidle'⟩ := forgets_dropStale hidle
  have hlength : s.rest.length + 1 = (indentation k ++ rest).length + 2 := by rw [hs.rest]; rfl
  refine ⟨((s.ahead (k + 1)).allowing b).recalling places, ⟨_, ?_, ?_, .refl _⟩, ?_, ?_⟩
  · rw [arrive, run_get_bind, hlength, run_bind (skipToToken_run_feed hs.rest hrest _), ← hb, hrun]
  · change (s.ahead (k + 1)).rest.length ≤ s.rest.length
    simp
  · rw [hfeed] at hidle' ⊢
    exact ⟨rfl, hs.flow, hs.indent, hs.outer, hidle', hs.tokens⟩
  · rw [hfeed]
    rfl

/-- A token is taken, and scanning comes to the next one. -/
theorem turn {c : Char} {more rest' : List Char} {ts' : List Token} {u : Scan}
    (hs : s.StandsIn depth rest ts) (hc : rest = c :: more)
    (htoken : (tokenAt c).run s = .ok ((), t)) {depth' : Nat} (ht : t.StandsIn depth' rest' ts')
    (hlt : rest'.length < rest.length) (hcomes : Comes t u) : Leads s u :=
  .turn (hs.rest.trans hc) (hs.settled _) htoken (by rw [ht.rest, hs.rest]; exact hlt) hcomes

/-! ### Marks -/

/-- An opening bracket. -/
theorem opening (hs : s.StandsIn depth ('[' :: rest) ts) :
    ∃ t, (tokenAt '[').run s = .ok ((), t) ∧
      t.StandsIn (depth + 1) rest (ts ++ [.flowSequence]) ∧ t.column = s.column + 1 := by
  obtain ⟨places, hsave, hidle⟩ := forgets_savePlace hs.idle hs.indent_ne
  have htoken : (tokenAt '[').run s = .ok ((), { s.recalling places with
      rest := rest, index := s.index + 1, column := s.column + 1, flow := s.flow + 1,
      keyAllowed := true, tokens := s.tokens.push .flowSequence }) := by
    rw [tokenAt_bracket (Scan.isInside_of_head hs.rest (by decide)) hs.rest, flowStart,
      run_bind hsave, run_modify_bind]
    exact forward_push (by exact hs.rest) (by decide) .flowSequence
  exact ⟨_, htoken, ⟨rfl, congrArg (· + 1) hs.flow, hs.indent, hs.outer, hidle,
    by simp [hs.tokens]⟩, rfl⟩

/-- A closing bracket. -/
theorem closing (hs : s.StandsIn (depth + 1) (']' :: rest) ts) :
    ∃ t, (tokenAt ']').run s = .ok ((), t) ∧
      t.StandsIn depth rest (ts ++ [.flowSequenceEnd]) := by
  obtain ⟨places, hdrop, hidle⟩ := forgets_dropPlace hs.idle
  have hflow : ((s.recalling places).flow == 0) = false := by simp [Scan.recalling, hs.flow]
  have htoken : (tokenAt ']').run s = .ok ((), { s.recalling places with
      rest := rest, index := s.index + 1, column := s.column + 1, flow := s.flow - 1,
      keyAllowed := false, tokens := s.tokens.push .flowSequenceEnd }) := by
    rw [tokenAt_bracketEnd (Scan.isInside_of_head hs.rest (by decide)) hs.rest, flowEnd,
      run_bind hdrop, run_get_bind]
    simp only [hflow, Bool.false_eq_true, if_false]
    rw [run_modify_bind]
    exact forward_push (by exact hs.rest) (by decide) .flowSequenceEnd
  exact ⟨_, htoken, rfl, congrArg (· - 1) hs.flow, hs.indent, hs.outer, hidle,
    by simp [hs.tokens]⟩

/-- A comma. -/
theorem comma (hs : s.StandsIn depth (',' :: rest) ts) :
    ∃ t, (tokenAt ',').run s = .ok ((), t) ∧ t.StandsIn depth rest (ts ++ [.flowEntry]) ∧
      t.column = s.column + 1 := by
  obtain ⟨places, hdrop, hidle⟩ := forgets_dropPlace (s := s.allowing true) hs.idle
  have htoken : (tokenAt ',').run s = .ok ((), { (s.allowing true).recalling places with
      rest := rest, index := s.index + 1, column := s.column + 1,
      tokens := s.tokens.push .flowEntry }) := by
    rw [tokenAt_comma (Scan.isInside_of_head hs.rest (by decide)) hs.rest, flowEntry,
      run_bind (allowKey_run true s), run_bind hdrop]
    exact forward_push (by exact hs.rest) (by decide) .flowEntry
  exact ⟨_, htoken, ⟨rfl, hs.flow, hs.indent, hs.outer, hidle, by simp [hs.tokens]⟩, rfl⟩

/-! ### Scalars -/

/-- A token before which a key may begin. -/
theorem keyLike {cs : List Char} (hs : s.StandsIn depth (cs ++ rest) ts) {x : Scanner Token}
    {token : Token} (hx : ∀ u : Scan, u.rest = s.rest → u.flow = s.flow →
      ∃ b, x.run u = .ok (token, (u.ahead cs.length).allowing b)) :
    ∃ t, (keyLike x).run s = .ok ((), t) ∧ t.StandsIn depth rest (ts ++ [token]) := by
  obtain ⟨places, hsave, hidle⟩ := forgets_savePlace hs.idle hs.indent_ne
  obtain ⟨u, hu⟩ : ∃ u, u = (s.recalling places).allowing false := ⟨_, rfl⟩
  obtain ⟨b, hrun⟩ := hx u (hu ▸ rfl) (hu ▸ rfl)
  have hidle' : u.IsIdle := by rwa [hu]
  have htoken : (Yaml.keyLike x).run s
      = .ok ((), ((u.ahead cs.length).allowing b).pushing token) := by
    rw [Yaml.keyLike, run_bind hsave, run_bind (allowKey_run false _), ← hu, run_bind hrun]
    rfl
  have hrest : u.rest = cs ++ rest := by rw [hu]; exact hs.rest
  refine ⟨_, htoken, Scan.rest_ahead hrest, (u.ahead_flow _).trans ?_, (u.ahead_indent _).trans ?_,
    (u.ahead_outer _).trans ?_, fun p hp => hidle' p ?_, ?_⟩
  · rw [hu]; exact hs.flow
  · rw [hu]; exact hs.indent
  · rw [hu]; exact hs.outer
  · rwa [← u.ahead_places cs.length]
  · simp [Scan.pushing, Scan.allowing, hu, Scan.recalling, hs.tokens]

/-- A scalar between quotes. -/
theorem quoted {quote : Char} (hquote : quote = '\'' ∨ quote = '"') {text out : List Char}
    (hs : s.StandsIn depth (quote :: out ++ rest) ts)
    (htext : ReadsText quote (out ++ rest) out.length text) :
    ∃ t, (tokenAt quote).run s = .ok ((), t) ∧
      t.StandsIn depth rest (ts ++ [.scalar (String.ofList text) false]) := by
  have hinside : s.IsInside := by
    rcases hquote with rfl | rfl <;> exact Scan.isInside_of_head hs.rest (by decide)
  rw [tokenAt_quote hinside hquote hs.rest]
  refine hs.keyLike fun u hu _ => ⟨u.keyAllowed, ?_⟩
  have hnext : (u.ahead 1).rest = out ++ rest := Scan.rest_ahead_one (hu.trans hs.rest)
  have hfuel : out.length ≤ s.rest.length + 1 := by
    rw [hs.rest]
    simp
    omega
  have hsame : (u.ahead (quote :: out).length).allowing u.keyAllowed
      = (u.ahead 1).ahead out.length := by
    rw [← Scan.ahead_add, List.length_cons, Nat.add_comm,
      ← Scan.ahead_keyAllowed u (1 + out.length)]
    rfl
  rw [run_bind (forward_run 1 u), run_bind (htext.run hnext hfuel), hsame]
  rfl

end Scan.StandsIn

/-! ### Plain texts between brackets -/

/-- Characters that mean something between brackets wherever they stand. -/
def isInnerMark (c : Char) : Bool := isFlowMark c || c == '?' || c == ':'

theorem contains_innerMarks (c : Char) :
    ",?[]\x7b\x7d:".toList.contains c = isInnerMark c := by
  rw [Bool.eq_iff_iff]
  simp [isInnerMark, isFlowMark]
  tauto

/-- A text that is plain between brackets holds none of them. -/
theorem innerMark_of_unmarked {cs : List Char} (h : isMarked true cs = false) :
    ∀ c ∈ cs, isInnerMark c = false := by
  have hholds : ∀ {cs : List Char} {previous : Char}, holdsMark true previous cs = false →
      ∀ c ∈ cs, isInnerMark c = false := by
    intro cs
    induction cs with
    | nil => exact fun _ => List.forall_mem_nil _
    | cons c cs ih =>
        intro previous h
        simp only [holdsMark, contains_innerMarks, Bool.true_and, Bool.or_eq_false_iff] at h
        exact List.forall_mem_cons.2 ⟨h.1.1.1, ih h.2⟩
  cases cs with
  | nil => exact List.forall_mem_nil _
  | cons c cs =>
      simp only [isMarked, startsMarked, Bool.or_eq_false_iff, Bool.true_or, Bool.and_true] at h
      refine List.forall_mem_cons.2 ⟨?_, hholds h.2⟩
      obtain ⟨hspecial, hquestion, hcolon⟩ := h.1.2.1
      have hflow : isFlowMark c = false := by
        have hmarks : ∀ d ∈ [',', '[', ']', '\x7b', '\x7d'],
            "#,[]\x7b\x7d&*!|>'\"%@`".toList.contains d = true := by decide
        have hne : ∀ d ∈ [',', '[', ']', '\x7b', '\x7d'], (c == d) = false := by
          intro d hd
          rw [beq_eq_false_iff_ne]
          rintro rfl
          simp only [hmarks c hd, Bool.true_eq_false] at hspecial
        simp [isFlowMark, hne]
      rw [isInnerMark, hflow, hquestion, hcolon]
      rfl

/-- What follows an item between brackets. -/
inductive EndsItem : List Char → Prop
  | comma (rest : List Char) : EndsItem (',' :: rest)
  | bracket (rest : List Char) : EndsItem (']' :: rest)

theorem EndsItem.startsToken {rest : List Char} (h : EndsItem rest) : StartsToken rest := by
  cases h with
  | comma | bracket => exact ⟨startsInk_cons (by decide) _, by simp⟩

theorem EndsItem.head_ne {rest : List Char} (h : EndsItem rest) : rest.head? ≠ some '\'' := by
  cases h with
  | comma | bracket => simp

theorem plainLength_inner {w rest : List Char}
    (hw : ∀ c ∈ w, endsToken (some c) = false ∧ isInnerMark c = false)
    (hrest : endsToken rest.head? = true ∨ EndsItem rest) :
    plainLength true (w ++ rest) = w.length := by
  induction w with
  | nil =>
      rcases hrest with hrest | hrest
      · cases rest with
        | nil => rfl
        | cons c rest =>
            rw [List.head?_cons] at hrest
            simp [plainLength, hrest]
      · cases hrest with
        | comma | bracket => simp [plainLength, isFlowMark]
  | cons c w ih =>
      obtain ⟨⟨htoken, hmark⟩, hw⟩ := List.forall_mem_cons.1 hw
      simp only [isInnerMark, Bool.or_eq_false_iff] at hmark
      obtain ⟨⟨hflow, hquestion⟩, hcolon⟩ := hmark
      have hlength := ih hw
      simp only [List.cons_append, plainLength, htoken, hflow, hquestion, hcolon, Bool.false_and,
        Bool.and_false, Bool.or_self, Bool.false_eq_true, if_false, hlength, List.length_cons]
      omega

/-- A plain text between brackets is read up to what follows it. By induction on the words. -/
theorem InWords.plainText_run_inner {text out rest : List Char} (h : InWords n text out)
    (hn : 0 < n) (htext : ∀ c ∈ text, isInnerMark c = false) (hrest : EndsItem rest) {s : Scan}
    (hflow : (s.flow != 0) = true) (hs : s.rest = out ++ rest) (indent : Int) (blanks : List Char)
    {fuel : Nat} (hfuel : out.length < fuel) :
    (plainText indent blanks fuel).run s
      = .ok (blanks ++ text, (s.ahead out.length).allowing false) := by
  have hlength : ∀ {w rest : List Char}, IsWord w → (∀ c ∈ w, isInnerMark c = false) →
      endsToken rest.head? = true ∨ EndsItem rest → plainLength true (w ++ rest) = w.length :=
    fun hw hmarks hrest => plainLength_inner (fun c hc => ⟨(hw.ink c hc).1, hmarks c hc⟩) hrest
  induction h generalizing s blanks fuel with
  | @word w hw =>
      obtain ⟨fuel, rfl⟩ : ∃ f, fuel = f + 1 := ⟨fuel - 1, by omega⟩
      have hend : ((s.ahead w.length).allowing false).rest = indentation 0 ++ rest :=
        Scan.rest_ahead hs
      rw [plainText_word hw (hlength hw htext (.inr hrest)) hs hflow,
        run_bind (plainBlanks_run_blanks hend hrest.startsToken.ink), run_get_bind]
      rfl
  | @blanks w k text out hw hk h ih =>
      obtain ⟨fuel, rfl⟩ : ∃ f, fuel = f + 1 := ⟨fuel - 1, by omega⟩
      obtain ⟨k, rfl⟩ := Nat.exists_eq_succ_of_ne_zero (Nat.ne_of_gt hk)
      simp only [List.forall_mem_append] at htext
      rw [List.append_assoc, List.append_assoc] at hs
      have hend : ((s.ahead w.length).allowing false).rest = _ := Scan.rest_ahead hs
      have hafter := Scan.rest_ahead_indentation hend
      have hfuel' : out.length < fuel := by
        simp only [List.length_append, length_indentation] at hfuel
        omega
      have hgo := ih htext.2.2 (by simpa using hflow) hafter (indentation (k + 1)) hfuel'
      have hstart := h.startsInk rest
      rw [plainText_gap hw hs (hlength hw htext.1 (.inl rfl)) hflow
        (plainBlanks_run_blanks hend hstart.1) (by simp [indentation_succ]) (hafter ▸ hstart.2)
        (.inl rfl) hgo]
      simp [← Scan.ahead_add, Nat.add_assoc]
  | @fold w text out hw h ih =>
      obtain ⟨fuel, rfl⟩ : ∃ f, fuel = f + 1 := ⟨fuel - 1, by omega⟩
      simp only [List.forall_mem_append, List.forall_mem_cons] at htext
      rw [List.append_assoc, List.cons_append, List.append_assoc] at hs
      have hend : ((s.ahead w.length).allowing false).rest = _ := Scan.rest_ahead hs
      have hstart := h.startsInk rest
      have hfeed := Scan.ahead_feed (s := (s.ahead w.length).allowing false) hend
      have hafter : (((s.ahead w.length).allowing false).ahead (n + 1)).rest = out ++ rest := by
        rw [hfeed]
      have hfuel' : out.length < fuel := by
        simp only [List.length_append, List.length_cons] at hfuel
        omega
      have hgo := ih (s := (((s.ahead w.length).allowing false).ahead (n + 1)).allowing true)
        htext.2.2 (by simpa using hflow) hafter [' '] hfuel'
      rw [plainText_gap hw hs (hlength hw htext.1 (.inl rfl)) hflow
        (plainBlanks_run_feed hend hstart.1 (isUnseparated_indentation hn _)) (by simp)
        (by rw [Scan.allowing_rest, hafter]; exact hstart.2) (.inl rfl) hgo]
      simp [← Scan.ahead_add, Nat.add_assoc, Nat.add_comm 1]

end Yaml

end FormDesigner
