import FormDesigner.Proofs.Yaml.Standing

/-!
# A layout is split into its tokens

What is laid out of a value is scanned as the tokens of the value, whatever is laid out on the lines
after it. A collection that is indented deeper ends where the next line begins.
-/

namespace FormDesigner

namespace Yaml

/-! ### What a layout begins with -/

theorem Lays.endsToken_head {entry : Bool} {n : Nat} {v : Value} {cs : List Char} {ts : List Token}
    (h : Lays entry n v cs ts) (rest : List Char) : endsToken (cs ++ rest).head? = true := by
  cases h <;> rfl

theorem follows_of_inside {n : Nat} {cs : List Char} (htoken : StartsToken cs)
    (hinside : IsUnseparated cs) : Follows n cs := by
  refine ⟨htoken, ?_⟩
  rcases n.eq_zero_or_pos with rfl | hn
  · exact hinside
  · exact isUnseparated_indentation hn cs

theorem LaysItems.follows {n : Nat} {xs : List Value} {cs : List Char} {ts : List Token}
    (h : LaysItems n xs cs ts) (rest : List Char) : Follows n (cs ++ rest) := by
  have hhyphen : ∀ {x : Value} {cs : List Char} {ts : List Token}, Lays false n x cs ts →
      ∀ rest, Follows n ('-' :: (cs ++ rest)) := fun h rest =>
    follows_of_inside ⟨startsInk_cons (by decide) _, by simp⟩
      (isUnseparated_hyphen (h.endsToken_head rest))
  cases h with
  | one item => exact hhyphen item rest
  | more item _ => simpa using hhyphen item _

theorem LaysEntries.follows {n : Nat} {es : Entries} {cs : List Char} {ts : List Token}
    (h : LaysEntries n es cs ts) (rest : List Char) : Follows n (cs ++ rest) := by
  have hname : ∀ {k : String}, IsName k → ∀ rest, Follows n (k.toList ++ ':' :: rest) := by
    intro k hk rest
    refine follows_of_inside ⟨hk.isWord.startsInk _, ?_⟩ (hk.inside rest).1
    rw [List.head?_append_of_ne_nil _ hk.toList_ne_nil]
    exact hk.isWord.head
  cases h with
  | one name _ => simpa using hname name _
  | more name _ _ => simpa using hname name _

/-- The first key begins with a letter. -/
theorem LaysEntries.startsName {n : Nat} {es : Entries} {cs : List Char} {ts : List Token}
    (h : LaysEntries n es cs ts) :
    ∃ k v more rest, es = (.text k, v) :: more ∧ IsName k ∧ cs = k.toList ++ rest := by
  cases h with
  | one name _ => exact ⟨_, _, _, _, rfl, name, rfl⟩
  | more name _ _ => exact ⟨_, _, _, _, rfl, name, by rw [List.append_assoc, List.append_assoc]⟩

/-! ### From the start of a value to its end -/

variable {s : Scan} {m n : Nat} {b : Bool} {column : Nat} {stack outer : List Int}
  {us : List Token} {rest : List Char}

/-- After a blank. -/
theorem Scan.Stands.blank (hs : s.Stands b (' ' :: rest) column stack us)
    (hrest : StartsToken rest) : ∃ t, Comes s t ∧ t.Stands b rest (column + 1) stack us := by
  have hinline : Scan.IsInline [' '] := List.forall_mem_singleton.2 (by decide)
  have hline := Scan.ahead_inline hs.rest hinline
  have hfresh : (s.ahead 1).IsFresh := fun p hp => by simp [hs.places] at hp
  refine ⟨s.ahead 1, .inline (k := 1) hs.rest hrest hfresh, ?_⟩
  change (s.ahead [' '].length).Stands _ _ _ _ _
  rw [hline]
  exact ⟨hs.keyAllowed, rfl, congrArg (· + 1) hs.column, hs.flow, hs.stack, hs.places, hs.tokens⟩

/-- On the next line. -/
theorem Scan.Stands.feed (hs : s.Stands b ('\n' :: (indentation m ++ rest)) column stack us)
    (hrest : StartsToken rest) : ∃ t, Comes s t ∧ t.Stands true rest m stack us := by
  have hline := Scan.ahead_feed hs.rest
  have hfree : (s.ahead (m + 1)).IsFree := fun p hp => by simp [hs.places] at hp
  refine ⟨_, .feed hs.rest hrest hs.flow hfree, ?_⟩
  rw [hline]
  exact ⟨rfl, rfl, rfl, hs.flow, hs.stack, rfl, hs.tokens⟩

/-- A collection that is indented deeper is closed. -/
theorem Scan.Stands.close {i o : Int} (hs : s.Stands b rest m (i :: o :: outer) us) (hm : m < i) :
    ∃ t, Leads s t ∧ t.Stands b rest m (o :: outer) (us ++ [.blockEnd]) := by
  obtain ⟨hindent, houter⟩ := List.cons.inj hs.stack
  refine ⟨s.closing o outer, .closing hs.flow houter (by rw [hs.column, hindent]; exact hm), ?_⟩
  exact ⟨hs.keyAllowed, hs.rest, hs.column, hs.flow, rfl, hs.places, by
    simp [Scan.closing, hs.tokens]⟩

/-- What is written after the hyphen or the colon of a value is scanned as some tokens, up to the
first token of the next line. -/
def ScansValue (entry : Bool) (n : Nat) (cs : List Char) (ts : List Token) : Prop :=
  ∀ (s : Scan) (m column : Nat) (outer : List Int) (us : List Token) (rest : List Char),
    s.Stands (!entry) (cs ++ '\n' :: (indentation m ++ rest)) column (n :: outer) us →
      (if entry then n < column else column = n + 1) → m ≤ n → Follows m rest →
        ∃ t, Comes s t ∧ t.Stands true rest m (n :: outer) (us ++ ts)

/-- What is written of a collection that `token` opens is scanned as some tokens. -/
def ScansBlock (token : Token) (n : Nat) (cs : List Char) (ts : List Token) : Prop :=
  ∀ (s : Scan) (m : Nat) (stack stack' : List Int) (os us : List Token) (rest : List Char),
    s.Stands true (cs ++ '\n' :: (indentation m ++ rest)) n stack us →
      Opens token n stack stack' os → m ≤ n → Follows m rest →
        ∃ t, Leads s t ∧ t.Stands true rest m stack' (us ++ os ++ ts)

section Cases

variable {entry : Bool} {token : Token} {cs ds : List Char} {ts ts' : List Token}

/-- What stands on the line of the hyphen or the colon. -/
theorem scansValue_inline
    (hstart : ∀ rest, StartsToken (cs ++ '\n' :: rest))
    (h : ∀ (s : Scan) (m column : Nat) (outer : List Int) (us : List Token) (rest : List Char),
      s.Stands (!entry) (cs ++ '\n' :: (indentation m ++ rest)) column (n :: outer) us →
        (if entry then n < column else column = n + levelIndent) → m ≤ n → Follows m rest →
          ∃ t, Leads s t ∧ t.Stands true rest m (n :: outer) (us ++ ts)) :
    ScansValue entry n (' ' :: cs) ts := by
  intro s m column outer us rest hs hcolumn hm hrest
  obtain ⟨t, hcomes, ht⟩ := hs.blank (hstart _)
  have hcolumn' : if entry then n < column + 1 else column + 1 = n + levelIndent := by
    cases entry with
    | true => exact Nat.lt_succ_of_lt hcolumn
    | false => exact congrArg (· + 1) hcolumn
  obtain ⟨u, hleads, hu⟩ := h t m (column + 1) outer us rest ht hcolumn' hm hrest
  exact ⟨u, hcomes.trans hleads, hu⟩

theorem lt_levelIndent (n : Nat) : n < n + levelIndent := Nat.lt_add_of_pos_right (by decide)

theorem lt_of_column {column : Nat} (h : if entry then n < column else column = n + levelIndent) :
    n < column := by
  cases entry with
  | true => exact h
  | false =>
      obtain rfl : column = n + levelIndent := h
      exact lt_levelIndent n

/-- Brackets with nothing between them. -/
theorem scansValue_brackets {opening closing : Char} {start stop : Token}
    (hkind : Brackets opening closing start stop) :
    ScansValue entry n (' ' :: [opening, closing]) [start, stop] := by
  refine scansValue_inline ?_ ?_
  · cases hkind <;> exact fun _ => ⟨startsInk_cons (by decide) _, by simp⟩
  · intro s m column outer us rest hs hcolumn _ hrest
    exact hs.brackets hkind (lt_of_column hcolumn) hrest

/-- A scalar between quotes. -/
theorem scansValue_quoted {quote : Char} (hquote : quote = '\'' ∨ quote = '"') {text : List Char}
    (htext : ∀ tail, tail.head? ≠ some '\'' →
      ReadsText quote (cs ++ quote :: tail) (cs.length + 1) text) :
    ScansValue entry n (' ' :: (quote :: cs ++ [quote])) [.scalar (String.ofList text) false] := by
  refine scansValue_inline ?_ ?_
  · rcases hquote with rfl | rfl <;> exact fun _ => ⟨startsInk_cons (by decide) _, by simp⟩
  · intro s m column outer us rest hs hcolumn _ hrest
    exact hs.quoted (lt_of_column hcolumn) hrest hquote rfl
      (by simpa using htext ('\n' :: (indentation m ++ rest)) (by simp))

/-- A scalar. -/
theorem Spells.scans {l : Leaf} (hl : l.IsSimple) (hsurvives : l.Survives (n + levelIndent))
    (h : Spells true (n + levelIndent) l.text.toList l.quotes cs) :
    ScansValue entry n (' ' :: cs) [.scalar l.text (l.quotes = .plain)] := by
  have hn : 0 < n + levelIndent := Nat.lt_of_le_of_lt (Nat.zero_le n) (lt_levelIndent n)
  have htext : l.text = String.ofList l.text.toList := String.ofList_toList.symm
  generalize hq : l.quotes = q at h
  cases h with
  | plain lines =>
      have hplain := hl.isPlain hq
      have hne : l.text.toList ≠ [] := fun hnil =>
        hl.filled hq (String.toList_eq_nil_iff.1 hnil)
      have hwords := hplain.inWords hne lines
      rw [htext]
      refine scansValue_inline (fun rest => ⟨(hwords.startsInk _).1, (hwords.startsInk _).2⟩) ?_
      intro s m column outer us rest hs hcolumn hm hrest
      exact hs.plain (lt_of_column hcolumn) hrest hm (lt_levelIndent n) hplain hwords
  | single lines =>
      have hquotes : l.quotesIn true false ≠ .double := fun h => nomatch hq.symm.trans h
      have hspecial := (traits_quotable_iff.1 (hl.quotable hquotes)).2.2
      have hkept : nextLine ∉ l.text.toList := by simpa [Leaf.Survives, hq] using hsurvives
      have hclean : ∀ c ∈ l.text.toList, c ≠ nextLine ∧ isSpecial true c = false := fun c hc =>
        ⟨fun heq => hkept (heq ▸ hc), hspecial c hc⟩
      rw [htext]
      exact scansValue_quoted (.inl rfl) fun tail htail => lines.readsText hn hclean htail
  | double lines =>
      rw [htext]
      refine scansValue_quoted (.inr rfl) fun tail _ => ?_
      simpa [indentation] using lines.readsText hn tail 0

/-- A list that is not indented deeper than the entry whose value it is. -/
theorem ScansBlock.indentless (h : ScansBlock token n cs ts)
    (hfollows : ∀ rest, Follows n (cs ++ rest)) :
    ScansValue true n ('\n' :: indentation n ++ cs) ts := by
  intro s m column outer us rest hs _ hm hrest
  obtain ⟨t, hcomes, ht⟩ := Scan.Stands.feed (by simpa using hs) (hfollows _).token
  obtain ⟨u, hleads, hu⟩ := h t m _ _ _ _ _ ht .already hm hrest
  exact ⟨u, hcomes.trans hleads, by simpa using hu⟩

theorem ScansBlock.deeper (h : ScansBlock token (n + levelIndent) cs ts) {t : Scan}
    (ht : t.Stands true (cs ++ '\n' :: (indentation m ++ rest)) (n + levelIndent) (n :: outer) us)
    (hm : m ≤ n) (hrest : Follows m rest) :
    ∃ u, Leads t u ∧ u.Stands true rest m (n :: outer) (us ++ (token :: ts ++ [.blockEnd])) := by
  have hlt := lt_levelIndent n
  obtain ⟨u, hleads, hu⟩ := h t m _ _ _ _ _ ht (.deeper (by omega)) (by omega) hrest
  obtain ⟨v, hleads', hv⟩ := hu.close (by omega)
  exact ⟨v, hleads.trans hleads', by simpa using hv⟩

/-- A collection on the lines after the colon, indented deeper than the key. -/
theorem ScansBlock.ofEntry (h : ScansBlock token (n + levelIndent) cs ts)
    (hfollows : ∀ rest, Follows (n + levelIndent) (cs ++ rest)) :
    ScansValue true n ('\n' :: indentation (n + levelIndent) ++ cs)
      (token :: ts ++ [.blockEnd]) := by
  intro s m column outer us rest hs _ hm hrest
  obtain ⟨t, hcomes, ht⟩ := Scan.Stands.feed (by simpa using hs) (hfollows _).token
  obtain ⟨u, hleads, hu⟩ := h.deeper ht hm hrest
  exact ⟨u, hcomes.trans hleads, hu⟩

/-- A collection that begins on the line of the hyphen. -/
theorem ScansBlock.ofItem (h : ScansBlock token (n + levelIndent) cs ts)
    (hfollows : ∀ rest, Follows (n + levelIndent) (cs ++ rest)) :
    ScansValue false n (' ' :: cs) (token :: ts ++ [.blockEnd]) := by
  refine scansValue_inline (fun rest => (hfollows _).token) ?_
  intro s m column outer us rest hs hcolumn hm hrest
  obtain rfl : column = n + levelIndent := hcolumn
  exact h.deeper hs hm hrest

/-- The hyphen and the value of an item. -/
theorem ScansValue.item (h : ScansValue false n cs ts)
    (hcs : ∀ rest, endsToken (cs ++ rest).head? = true) :
    ScansBlock .blockSequence n ('-' :: cs) (.blockEntry :: ts) := by
  intro s m stack stack' os us rest hs hopens hm hrest
  obtain ⟨t, ht, hleads⟩ := hs.hyphen hopens (hcs _)
  obtain ⟨outer, rfl⟩ := hopens.exists_cons
  obtain ⟨u, hcomes, hu⟩ := h t m _ _ _ _ ht rfl hm hrest
  exact ⟨u, hleads u hcomes, by simpa using hu⟩

/-- The key and the value of an entry. -/
theorem ScansValue.keyed {k : String} (hk : IsName k) (h : ScansValue true n cs ts)
    (hcs : ∀ rest, endsToken (cs ++ rest).head? = true) :
    ScansBlock .blockMapping n (k.toList ++ ':' :: cs)
      (.key :: .scalar k true :: .value :: ts) := by
  intro s m stack stack' os us rest hs hopens hm hrest
  obtain ⟨t, ht, hleads⟩ := Scan.Stands.key (by simpa using hs) hk hopens (hcs _)
  obtain ⟨outer, rfl⟩ := hopens.exists_cons
  obtain ⟨u, hcomes, hu⟩ := h t m _ _ _ _ ht (Nat.lt_succ_of_le (Nat.le_add_right _ _)) hm hrest
  exact ⟨u, hleads u hcomes, by simpa using hu⟩

/-- An item or an entry, and those after it. -/
theorem ScansBlock.append (h : ScansBlock token n cs ts) (h' : ScansBlock token n ds ts')
    (hfollows : ∀ rest, Follows n (ds ++ rest)) :
    ScansBlock token n (cs ++ '\n' :: indentation n ++ ds) (ts ++ ts') := by
  intro s m stack stack' os us rest hs hopens hm hrest
  obtain ⟨t, hleads, ht⟩ := h s n _ _ _ _ _ (by simpa using hs) hopens (Nat.le_refl n) (hfollows _)
  obtain ⟨outer, rfl⟩ := hopens.exists_cons
  obtain ⟨u, hleads', hu⟩ := h' t m _ _ _ _ _ ht .already hm hrest
  exact ⟨u, hleads.trans hleads', by simpa using hu⟩

end Cases

mutual

/-- What is laid out of a value is scanned as its tokens. -/
theorem Lays.scans : ∀ {entry : Bool} {n : Nat} {v : Value} {cs : List Char} {ts : List Token},
    Lays entry n v cs ts → ScansValue entry n cs ts
  | _, _, _, _, _, .leaf _ simple survives spelled => spelled.scans simple survives
  | _, _, _, _, _, .emptyList => scansValue_brackets .list
  | _, _, _, _, _, .emptyMap => scansValue_brackets .map
  | _, _, _, _, _, .listOfEntry items => items.scans.indentless items.follows
  | _, _, _, _, _, .listOfItem items => items.scans.ofItem items.follows
  | _, _, _, _, _, .mapOfEntry entries => entries.scans.ofEntry entries.follows
  | _, _, _, _, _, .mapOfItem entries => entries.scans.ofItem entries.follows

theorem LaysItems.scans : ∀ {n : Nat} {xs : List Value} {cs : List Char} {ts : List Token},
    LaysItems n xs cs ts → ScansBlock .blockSequence n cs ts
  | _, _, _, _, .one item => item.scans.item item.endsToken_head
  | _, _, _, _, .more item rest =>
    (item.scans.item item.endsToken_head).append rest.scans rest.follows

theorem LaysEntries.scans : ∀ {n : Nat} {es : Entries} {cs : List Char} {ts : List Token},
    LaysEntries n es cs ts → ScansBlock .blockMapping n cs ts
  | _, _, _, _, .one name value => value.scans.keyed name value.endsToken_head
  | _, _, _, _, .more name value rest =>
    (value.scans.keyed name value.endsToken_head).append rest.scans rest.follows

end

/-! ### From the start of a document to its end -/

/-- At the end of the text, the collection in the first column is closed. -/
theorem goOn_run_end (hs : s.Stands true [] 0 [0, -1] us) (fuel : Nat) :
    ∃ t, (goOn fuel).run s = .ok ((), t) ∧ t.tokens.toList = us ++ [.blockEnd] := by
  obtain ⟨hindent, houter⟩ := List.cons.inj hs.stack
  have hsettled : s.indent ≤ (s.column : Int) := by
    rw [hindent, hs.column]
    exact Int.le_refl _
  have hpeek : s.rest[0]? = none := by rw [hs.rest]; rfl
  have hunwind : (unwind (-1)).run s = .ok ((), s.closing (-1) []) := by
    rw [unwind_run_closing hs.flow houter (by rw [hindent]; decide)]
    exact unwind_run_settled (Int.le_refl _)
  refine ⟨s.closing (-1) [], ?_, by simp [Scan.closing, hs.tokens]⟩
  rw [goOn, run_get_bind, run_bind (unwind_run_settled hsettled), run_bind (peek_run 0 s), hpeek]
  dsimp only
  rw [run_bind hunwind]
  exact dropPlace_run (by simp [Scan.closing, hs.places])

/-- What is left when scanning comes to the end of a text are its tokens. -/
theorem tokens_of_comes {cs : List Char} {ts : List Token} {t : Scan}
    (hclean : ∀ c ∈ cs, isPrintable c = true) (hmark : cs.head? ≠ some byteOrderMark)
    (hcomes : Comes (Scan.ofText (String.ofList cs)) t)
    (hend : ∀ fuel, ∃ u, (goOn fuel).run t = .ok ((), u) ∧ u.tokens.toList = ts) :
    tokens (String.ofList cs) = .ok ts := by
  obtain ⟨s, hs⟩ : ∃ s, s = Scan.ofText (String.ofList cs) := ⟨_, rfl⟩
  have hrest : s.rest = cs := hs ▸ String.toList_ofList
  obtain ⟨v, harrive, hle, k, hk, hrun⟩ := hcomes
  rw [← hs] at harrive hle
  obtain ⟨u, hu, htokens⟩ := hend (s.rest.length + 1 - k)
  have hfuel : s.rest.length + 1 = s.rest.length + 1 - k + k := by omega
  have hdone : (tokensFrom (s.rest.length + 2)).run s = .ok ((), u) := by
    rw [tokensFrom_succ, run_bind harrive, hfuel, hrun, hu]
  have hprintable : (String.ofList cs).toList.all isPrintable = true := by
    rw [String.toList_ofList]
    exact List.all_eq_true.2 hclean
  have hmark' : (s.rest.head? == some byteOrderMark) = false := by
    rw [hrest]
    exact beq_eq_false_iff_ne.2 hmark
  rw [tokens, ← hs]
  simp only [hprintable, hmark', Bool.not_true, Bool.false_eq_true, if_false]
  rw [hdone]
  exact congrArg Except.ok htokens

/-- A document that is a mapping is split into the tokens of its layout. -/
theorem tokens_of_layout {es : Entries} {cs : List Char} {ts : List Token}
    (h : LaysEntries 0 es cs ts) :
    tokens (String.ofList (cs ++ ['\n'])) = .ok (.blockMapping :: ts ++ [.blockEnd]) := by
  have hs : (Scan.ofText (String.ofList (cs ++ ['\n']))).Stands true
      (cs ++ '\n' :: (indentation 0 ++ [])) 0 [-1] [] :=
    ⟨rfl, String.toList_ofList, rfl, rfl, rfl, rfl, rfl⟩
  have hfollows := h.follows ['\n']
  have hend : Follows 0 [] :=
    ⟨⟨⟨by simp [StartsUnblank], by simp⟩, by simp⟩, by simp [IsUnseparated, indentation]⟩
  obtain ⟨t, hleads, ht⟩ :=
    h.scans _ 0 _ _ _ _ _ hs (.deeper (by decide)) (Nat.le_refl 0) hend
  have hcomes :=
    (Comes.inline (k := 0) hs.rest hfollows.token (List.forall_mem_nil _)).trans hleads
  have hmark : (cs ++ ['\n']).head? ≠ some byteOrderMark := by
    obtain ⟨k, v, more, rest, -, hk, rfl⟩ := h.startsName
    rw [List.append_assoc, List.head?_append_of_ne_nil _ hk.toList_ne_nil]
    exact fun hc => ne_of_isAlpha (hk.letters _ (List.mem_of_mem_head? hc)) rfl rfl
  have hclean : ∀ c ∈ cs ++ ['\n'], isPrintable c = true :=
    List.forall_mem_append.2 ⟨fun c hc => (h.clean c hc).1, List.forall_mem_singleton.2 rfl⟩
  exact tokens_of_comes hclean hmark hcomes (goOn_run_end (by simpa using ht))

end Yaml

end FormDesigner
