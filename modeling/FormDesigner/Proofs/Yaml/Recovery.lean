import FormDesigner.Proofs.Yaml.Composing
import FormDesigner.Proofs.Yaml.Enclosed

/-!
# Values on a line are read back

What is written of a scalar or of a list of scalars in the style for single lines is split into its
tokens again, and these are put together to the value.
-/

namespace FormDesigner

namespace Yaml

variable {s : Scan} {depth : Nat} {v : Value} {vs : List Value} {rest cs : List Char}
variable {us ts : List Token} {token : Token}

/-! ### The token of an item -/

namespace Scan.StandsIn

/-- A plain scalar. -/
theorem plain {c : Char} {more text : List Char} (hs : s.StandsIn depth (cs ++ rest) us)
    (hinside : s.IsInside) (hcs : cs ++ rest = c :: more) (hbegins : BeginsPlain c more.head?)
    (hflow : s.flow = 0 ∨ c ≠ '?' ∧ c ≠ ':')
    (htext : ∀ u : Scan, u.rest = s.rest → u.flow = s.flow → ∀ fuel, cs.length < fuel →
      (plainText 0 [] fuel).run u = .ok (text, (u.ahead cs.length).allowing false)) :
    ∃ t, (tokenAt c).run s = .ok ((), t) ∧
      t.StandsIn depth rest (us ++ [.scalar (String.ofList text) true]) := by
  have hindent : s.indent + 1 = 0 := by rw [hs.indent]; rfl
  have hfuel : cs.length < s.rest.length + 1 := by
    rw [hs.rest, List.length_append]
    omega
  rw [tokenAt_plain hinside hbegins hflow (hs.rest.trans hcs), hindent]
  refine hs.keyLike fun u hu hflow => ⟨false, ?_⟩
  rw [run_bind (htext u hu hflow _ hfuel)]
  rfl

/-- A token has been taken at which scanning stands before the end of an item. -/
theorem taken {c : Char} {more : List Char} {t : Scan} {ts : List Token}
    (hs : s.StandsIn depth (cs ++ rest) us) (hcs : cs ++ rest = c :: more) (hne : cs ≠ [])
    (htoken : (tokenAt c).run s = .ok ((), t)) (ht : t.StandsIn depth rest ts)
    (hrest : StartsToken rest) : ∃ u, Leads s u ∧ u.StandsIn depth rest ts := by
  obtain ⟨u, hcomes, hu, -⟩ := Scan.StandsIn.inline (k := 0) ht hrest
  refine ⟨u, hs.turn hcs htoken ht ?_ hcomes, hu⟩
  have := List.length_pos_iff.2 hne
  rw [List.length_append]
  omega

end Scan.StandsIn

namespace LaysScalar

theorem startsToken (h : LaysScalar v cs token) (rest : List Char) : StartsToken (cs ++ rest) := by
  cases h with
  | mk leaf reads spelled =>
      have hsimple := reads.isSimpleIn false true
      generalize hq : Leaf.quotesIn _ false true = q at spelled
      cases spelled with
      | plain lines =>
          have hne := fun hnil => hsimple.filled hq (String.toList_eq_nil_iff.1 hnil)
          have hstart := ((hsimple.isPlain hq).inWords hne lines).startsInk rest
          exact ⟨hstart.1, hstart.2⟩
      | single _ | double _ => exact ⟨startsInk_cons (by decide) _, by simp⟩

/-- An item is one token. -/
theorem scans (h : LaysScalar v cs token) (hs : s.StandsIn (depth + 1) (cs ++ rest) us)
    (hcolumn : 0 < s.column) (hrest : EndsItem rest) :
    ∃ t, Leads s t ∧ t.StandsIn (depth + 1) rest (us ++ [token]) := by
  have hn : 0 < itemIndent := by decide
  cases h with
  | @mk l _ leaf reads spelled =>
      have hsimple := reads.isSimpleIn false true
      have htext : l.text = String.ofList l.text.toList := String.ofList_toList.symm
      generalize hq : l.quotesIn false true = q at spelled
      cases spelled with
      | plain lines =>
          obtain ⟨hplain, hmarked, -⟩ := hsimple.plainIn hq
          have hunmarked := innerMark_of_unmarked hmarked
          have hwords := hplain.inWords
            (fun hnil => hsimple.filled hq (String.toList_eq_nil_iff.1 hnil)) lines
          obtain ⟨c, more, hcs, hbegins⟩ := hplain.begins hwords rest
          obtain ⟨d, as, bs, hl, rfl⟩ := hwords.same_head
          obtain rfl : d = c := (List.cons.inj hcs).1
          have hmark := hunmarked d (by rw [hl]; exact .head _)
          simp only [isInnerMark, Bool.or_eq_false_iff, beq_eq_false_iff_ne] at hmark
          obtain ⟨t, htoken, ht⟩ := hs.plain (.inl hcolumn) hcs hbegins
            (.inr ⟨hmark.1.2, hmark.2⟩) fun u hu hflow fuel hfuel => by
              simpa using hwords.plainText_run_inner hn hunmarked hrest (by simp [hflow, hs.flow])
                (hu.trans hs.rest) 0 [] hfuel
          rw [htext]
          exact hs.taken hcs (List.cons_ne_nil _ _) htoken ht hrest.startsToken
      | @single out lines =>
          have hne : l.quotesIn false true ≠ .double := by
            rw [hq]
            exact Quoting.noConfusion
          have hspecial := (traits_quotable_iff.1 (hsimple.quotable hne)).2.2
          have hclean : ∀ c ∈ l.text.toList, c ≠ nextLine ∧ isSpecial true c = false := fun c hc =>
            ⟨fun heq => absurd (heq ▸ hspecial c hc) (by decide),
              isSpecial_of_not_special (hspecial c hc)⟩
          have hread : ReadsText '\'' (out ++ ['\''] ++ rest) (out ++ ['\'']).length
              l.text.toList := by
            simpa using lines.readsText hn hclean hrest.head_ne
          obtain ⟨t, htoken, ht⟩ := hs.quoted (.inl rfl) hread
          rw [htext]
          exact hs.taken rfl (List.cons_ne_nil _ _) htoken ht hrest.startsToken
      | @double out lines =>
          have hread : ReadsText '"' (out ++ ['"'] ++ rest) (out ++ ['"']).length
              l.text.toList := by
            simpa [indentation] using lines.readsText hn rest 0
          obtain ⟨t, htoken, ht⟩ := hs.quoted (.inr rfl) hread
          rw [htext]
          exact hs.taken rfl (List.cons_ne_nil _ _) htoken ht hrest.startsToken

end LaysScalar

/-! ### The tokens of a list -/

/-- Between the comma and the next item. -/
theorem IsJoint.comes {gap : List Char} (h : IsJoint gap) (hs : s.StandsIn depth (gap ++ rest) us)
    (hcolumn : 0 < s.column) (hrest : StartsToken rest) :
    ∃ t, Comes s t ∧ t.StandsIn depth rest us ∧ 0 < t.column := by
  cases h with
  | blank =>
      obtain ⟨t, hcomes, ht, hcolumn'⟩ := Scan.StandsIn.inline (k := 1) hs hrest
      exact ⟨t, hcomes, ht, by omega⟩
  | feed =>
      obtain ⟨t, hcomes, ht, hcolumn'⟩ := Scan.StandsIn.feed (k := levelIndent) hs hrest
      exact ⟨t, hcomes, ht, by rw [hcolumn']; decide⟩

namespace LaysRest

theorem endsItem (h : LaysRest vs cs ts) (hrest : EndsItem rest) : EndsItem (cs ++ rest) := by
  cases h with
  | nil => exact hrest
  | cons => exact .comma _

/-- By induction on the items. -/
theorem scans (h : LaysRest vs cs ts) (hs : s.StandsIn (depth + 1) (cs ++ rest) us)
    (hrest : EndsItem rest) : ∃ t, Leads s t ∧ t.StandsIn (depth + 1) rest (us ++ ts) := by
  induction h generalizing s us with
  | nil => exact ⟨s, .refl s, by simpa using hs⟩
  | @cons _ _ gap cs ds _ _ joint item more ih =>
      have hs' : s.StandsIn (depth + 1) (',' :: (gap ++ (cs ++ (ds ++ rest)))) us := by
        simpa using hs
      obtain ⟨t, htoken, ht, hcolumn⟩ := hs'.comma
      obtain ⟨u, hcomes, hu, hcolumn'⟩ := joint.comes ht (by omega) (item.startsToken _)
      obtain ⟨v, hleads, hv⟩ := item.scans hu hcolumn' (more.endsItem hrest)
      obtain ⟨w, hleads', hw⟩ := ih hv
      exact ⟨w, ((hs'.turn rfl htoken ht (Nat.lt_succ_self _) hcomes).trans hleads).trans hleads',
        by simpa using hw⟩

end LaysRest

/-- What stands between the brackets. -/
theorem LaysInline.scans (h : LaysInline vs cs ts)
    (hs : s.StandsIn (depth + 1) (cs ++ rest) us) (hcolumn : 0 < s.column) (hrest : EndsItem rest) :
    ∃ t, Leads s t ∧ t.StandsIn (depth + 1) rest (us ++ ts) := by
  cases h with
  | nil => exact ⟨s, .refl s, by simpa using hs⟩
  | @cons _ _ cs ds _ _ item more =>
      obtain ⟨t, hleads, ht⟩ := item.scans (by simpa using hs) hcolumn (more.endsItem hrest)
      obtain ⟨u, hleads', hu⟩ := more.scans ht hrest
      exact ⟨u, hleads.trans hleads', by simpa using hu⟩

theorem LaysInline.startsToken (h : LaysInline vs cs ts) (hrest : StartsToken rest) :
    StartsToken (cs ++ rest) := by
  cases h with
  | nil => exact hrest
  | cons item _ => exact List.append_assoc .. ▸ item.startsToken _

/-! ### The tokens of a document -/

/-- At the end of the text, no collection is open. -/
theorem Scan.StandsIn.goOn_run (hs : s.StandsIn 0 [] us) (fuel : Nat) :
    ∃ t, (goOn fuel).run s = .ok ((), t) ∧ t.tokens.toList = us := by
  have hpeek : s.rest[0]? = none := by rw [hs.rest]; rfl
  obtain ⟨places, hdrop, -⟩ := forgets_dropPlace hs.idle
  refine ⟨s.recalling places, ?_, hs.tokens⟩
  rw [goOn, run_get_bind, run_bind (unwind_run_settled (hs.settled _)), run_bind (peek_run 0 s),
    hpeek]
  dsimp only
  rw [run_bind (unwind_run_settled (Int.le_of_eq hs.indent))]
  exact hdrop

theorem standsIn_ofText (cs : List Char) : (Scan.ofText (String.ofList cs)).StandsIn 0 cs [] :=
  ⟨String.toList_ofList, rfl, rfl, rfl, List.forall_mem_nil _, rfl⟩

theorem endsText : StartsToken [] := ⟨⟨by simp [StartsUnblank], by simp⟩, by simp⟩

/-- A list between brackets is split into its tokens. -/
theorem LaysInline.tokens_eq (h : LaysInline vs cs ts) :
    tokens (String.ofList ('[' :: (cs ++ [']']))) =
      .ok (.flowSequence :: ts ++ [.flowSequenceEnd]) := by
  have hbracket : StartsToken [']'] := ⟨startsInk_cons (by decide) _, by simp⟩
  have hopening : StartsToken ('[' :: (cs ++ [']'])) := ⟨startsInk_cons (by decide) _, by simp⟩
  obtain ⟨s, hcomes, hs, -⟩ :=
    Scan.StandsIn.inline (k := 0) (standsIn_ofText ('[' :: (cs ++ [']']))) hopening
  obtain ⟨t, htoken, ht, hcolumn⟩ := hs.opening
  obtain ⟨u, hcomes', hu, hcolumn'⟩ := Scan.StandsIn.inline (k := 0) ht (h.startsToken hbracket)
  obtain ⟨v, hleads, hv⟩ := h.scans hu (by omega) (.bracket [])
  obtain ⟨w, htoken', hw⟩ := hv.closing
  obtain ⟨x, hcomes'', hx, -⟩ := Scan.StandsIn.inline (k := 0) hw endsText
  have hleads' := (hs.turn rfl htoken ht (Nat.lt_succ_self _) hcomes').trans
    (hleads.trans (hv.turn rfl htoken' hw (Nat.lt_succ_self _) hcomes''))
  refine tokens_of_comes ?_ (by simp [byteOrderMark]) (hcomes.trans hleads') fun fuel => ?_
  · simp only [List.forall_mem_cons, List.forall_mem_append]
    exact ⟨by decide, fun c hc => (h.clean c hc).1, by decide, List.forall_mem_nil _⟩
  · obtain ⟨y, hy, htokens⟩ := hx.goOn_run fuel
    exact ⟨y, hy, by simpa using htokens⟩

/-- A calm text does not begin with three hyphens or dots. -/
theorem IsCalm.isUnseparated (h : IsCalm cs) : IsUnseparated cs := by
  obtain ⟨e, more, rfl, hstart⟩ := h.start
  rintro c hc a b d rest heq ⟨rfl, rfl, -⟩
  obtain ⟨rfl, rfl⟩ := List.cons.inj heq
  rcases hc with rfl | rfl <;> simp at hstart

/-- A calm text is one plain scalar. -/
theorem IsCalm.tokens_eq (h : IsCalm cs) :
    tokens (String.ofList cs) = .ok [.scalar (String.ofList cs) true] := by
  have hplain := h.isPlain
  have hword := h.isWord
  have hstart : StartsToken cs := ⟨by simpa using hword.startsInk [], hword.head⟩
  have hwords : InWords 0 cs cs := .word hword
  obtain ⟨c, more, hcs, hbegins⟩ := hplain.begins hwords []
  obtain ⟨s, hcomes, hs, -⟩ := Scan.StandsIn.inline (k := 0) (standsIn_ofText cs) hstart
  have hinside : s.IsInside := by
    refine .inr ⟨hs.rest ▸ h.isUnseparated, ?_⟩
    rw [hs.rest]
    exact fun hc => ne_of_isQuiet (h.quiet _ (List.mem_of_mem_head? hc)) rfl rfl
  have hread : ∀ u : Scan, u.rest = s.rest → u.flow = s.flow → ∀ fuel, cs.length < fuel →
      (plainText 0 [] fuel).run u = .ok (cs, (u.ahead cs.length).allowing false) := by
    intro u hu hflow fuel hfuel
    obtain ⟨k, rfl, -⟩ := exists_succ_of_lt hfuel
    have hrest : u.rest = cs ++ [] := by rw [hu, hs.rest, List.append_nil]
    have hend : ((u.ahead cs.length).allowing false).rest = indentation 0 ++ [] :=
      Scan.rest_ahead hrest
    rw [plainText_word hword (hword.plainLength (.inl rfl)) hrest (by simp [hflow, hs.flow]),
      run_bind (plainBlanks_run_blanks hend endsText.ink), run_get_bind]
    rfl
  rw [← List.append_nil cs] at hs
  obtain ⟨t, htoken, ht⟩ := hs.plain hinside hcs hbegins (.inl hs.flow) hread
  obtain ⟨u, hleads, hu⟩ := hs.taken hcs h.ne_nil htoken ht endsText
  refine tokens_of_comes (fun c hc => ?_) ?_ (hcomes.trans hleads) hu.goOn_run
  · exact (isClean_of_not_special (h.not_special true c hc)).1
  · exact fun hc => (hword.ink _ (List.mem_of_mem_head? hc)).2 rfl

/-! ### Putting the tokens together -/

open Assembler

theorem LaysScalar.exists_scalar (h : LaysScalar v cs token) :
    ∃ text plain, token = .scalar text plain := by
  cases h with
  | mk leaf reads spelled => exact ⟨_, _, rfl⟩

theorem LaysScalar.takes_node (h : LaysScalar v cs token) (fuel : Nat) :
    Takes (node (fuel + 1) false false) [token] Anything (nodeOf v) := by
  cases h with
  | @mk l _ leaf reads spelled =>
      intro s rest htimes hs hnext
      rw [nodeOf_leaf leaf, ← reads.node_eq false true, node_run hs trivial (by simp) (by simp)]
      simpa using
        takes_bareScalar fuel l.text (l.quotesIn false true = .plain) s rest htimes hs hnext

/-- By induction on the items. -/
theorem LaysRest.takes_flowItems (h : LaysRest vs cs ts) {fuel : Nat} (hfuel : ts.length < fuel) :
    Takes (flowItems fuel false) (ts ++ [.flowSequenceEnd]) Anything (vs.map nodeOf) := by
  induction h generalizing fuel with
  | nil =>
      obtain ⟨fuel, rfl, -⟩ := exists_succ_of_lt hfuel
      rw [flowItems]
      exact (takes_takes _).last rfl
  | @cons v vs gap cs ds t ts joint item more ih =>
      obtain ⟨fuel, rfl⟩ : ∃ k, fuel = k + 2 := ⟨fuel - 2, by simp at hfuel; omega⟩
      have hitems := ih (show ts.length < fuel + 1 by simp at hfuel; omega)
      obtain ⟨text, plain, rfl⟩ := item.exists_scalar
      rw [flowItems]
      exact (takes_none _).bind ((takes_expects _).bind ((takes_none _).bind ((takes_none _).bind
        ((item.takes_node fuel).bind (hitems.last rfl) fun _ _ => trivial) (by simp)) (by simp))
          fun _ _ => trivial) (by simp)

theorem LaysInline.takes_flowItems (h : LaysInline vs cs ts) {fuel : Nat}
    (hfuel : ts.length + 1 < fuel) :
    Takes (flowItems fuel true) (ts ++ [.flowSequenceEnd]) Anything (vs.map nodeOf) := by
  cases h with
  | nil =>
      obtain ⟨fuel, rfl, -⟩ := exists_succ_of_lt hfuel
      rw [flowItems]
      exact (takes_takes _).last rfl
  | @cons v vs cs ds t ts item more =>
      obtain ⟨fuel, rfl⟩ : ∃ k, fuel = k + 2 := ⟨fuel - 2, by omega⟩
      have hitems := more.takes_flowItems (show ts.length < fuel + 1 by simp at hfuel; omega)
      obtain ⟨text, plain, rfl⟩ := item.exists_scalar
      rw [flowItems]
      exact (takes_none _).bind ((takes_none _).bind ((takes_none _).bind
        ((item.takes_node fuel).bind (hitems.last rfl) fun _ _ => trivial) (by simp)) (by simp))
          (by simp)

/-! ### Reading -/

/-- A list of scalars is written between brackets, and read without the line break after these. -/
theorem exists_list_read (hvs : (Value.list vs).IsJson) (hscalar : ∀ v ∈ vs, v.isScalar = true) :
    ∃ cs, write .inline (.list vs) = .ok (String.ofList ('[' :: (cs ++ [']', '\n']))) ∧
      read false (String.ofList ('[' :: (cs ++ [']']))) = .ok (.list vs) := by
  obtain ⟨cs, ts, hwrite, hlays⟩ := write_list fun v hv =>
    (Value.IsIn.list_iff.1 hvs v hv).node_of_scalar (hscalar v hv)
  have hnode : AreNode false (.flowSequence :: ts ++ [.flowSequenceEnd]) (nodeOf (.list vs)) := by
    rw [nodeOf_list]
    refine areNode_between trivial Token.noConfusion (fun _ => rfl) fun fuel hfuel => ?_
    exact hlays.takes_flowItems (by simp at hfuel; omega)
  exact ⟨cs, hwrite, read_of_tokens hlays.tokens_eq hnode hvs⟩

/-- A leaf that is no text is read from its text. -/
theorem Leaf.ReadsAs.read_text {l : Leaf} (h : l.ReadsAs v) (hl : leaf? v = .ok (some l))
    (htag : l.tag ≠ .text) (hv : v.IsJson) : read false l.text = .ok v := by
  have hplain : l.quotes = .plain := h.quotesIn_eq_plain htag true false
  have htokens := (h.calm htag).2.tokens_eq
  have hnode : AreNode false _ _ := areNode_leaf hl
  rw [decide_eq_true hplain] at hnode
  rw [String.ofList_toList] at htokens
  exact read_of_tokens htokens hnode hv

/-- A scalar that is no text is written with a mark for the end of the document, and read without
it. -/
theorem exists_scalar_read (hv : v.IsJson) (hscalar : v.isScalar = true)
    (htext : ∀ t, v ≠ .text t) :
    ∃ cs, IsCalm cs ∧ write .inline v = .ok (String.ofList (cs ++ "\n...\n".toList)) ∧
      read false (String.ofList cs) = .ok v := by
  obtain ⟨l, hl, hreads⟩ := exists_leaf (hv.node_of_scalar hscalar)
  have htag : l.tag ≠ .text := fun htag => htext _ (hreads.text htag)
  refine ⟨l.text.toList, (hreads.calm htag).2, write_scalar hl hreads htag, ?_⟩
  rw [String.ofList_toList]
  exact hreads.read_text hl htag hv

end Yaml

end FormDesigner
