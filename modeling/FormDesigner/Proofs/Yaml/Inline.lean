import FormDesigner.Proofs.Json.Image
import FormDesigner.Proofs.Yaml.Leaves

/-!
# Values between brackets

In the style for single lines, a scalar makes up a document of its own, and a list stands between
brackets, its items one after the other. After the comma of an item the line goes on with a blank,
or ends if it has become too long. All of it is written in ASCII.
-/

namespace FormDesigner

namespace Yaml

/-! ### Scalars in any style -/

namespace Leaf.ReadsAs

variable {l : Leaf} {v : Value} (h : l.ReadsAs v)

include h

/-- What is no text is plain everywhere. -/
theorem quotesIn_eq_plain (htag : l.tag ≠ .text) (unicode inFlow : Bool) :
    l.quotesIn unicode inFlow = .plain :=
  quotesIn_of_isCalm h.simple.block (h.calm htag).1 (h.calm htag).2 unicode inFlow

theorem isSimpleIn (unicode inFlow : Bool) : l.IsSimpleIn unicode inFlow := by
  refine ⟨h.simple.block, fun hquotes => ?_, fun hquotes hempty => ?_⟩
  · by_contra htag
    exact hquotes (h.quotesIn_eq_plain htag unicode inFlow)
  · rw [quotesIn_of_not_block h.simple.block] at hquotes
    split at hquotes
    · next hplain =>
        have htag : l.tag ≠ .text := by
          have hnull : plainTag true "" = .null := by decide
          have := hplain.1
          rw [readsBack, hempty, hnull, beq_iff_eq] at this
          simp [← this]
        exact (h.calm htag).2.ne_nil (by rw [hempty]; rfl)
    · split at hquotes <;> cases hquotes

/-- A leaf is read as the same node, however it is quoted. -/
theorem node_eq (unicode inFlow : Bool) :
    .scalar (if l.quotesIn unicode inFlow = .plain then plainTag false l.text else .text) l.text =
      l.node := by
  by_cases htag : l.tag = .text
  · obtain ⟨tag, text, block⟩ := l
    obtain rfl : tag = .text := htag
    obtain rfl : block = false := h.simple.block
    rw [node_text]
    split
    · next hquotes =>
        have hplain : plainTag true text = .text := by
          simpa [readsBack] using (h.isSimpleIn unicode inFlow).readsBack hquotes
        rw [plainTag_without_times (by rw [hplain]; decide), hplain]
    · rfl
  · have hquotes : l.quotes = .plain := h.quotesIn_eq_plain htag true false
    rw [node, if_pos hquotes, if_pos (h.quotesIn_eq_plain htag unicode inFlow)]

end Leaf.ReadsAs

theorem putValue_leaf {v : Value} {l : Leaf} (h : leaf? v = .ok (some l)) (style : Style)
    (spot : Spot) (s : Sheet) : putValue style spot s v = .ok (l.put style.unicode spot s) := by
  cases v with
  | list | tuple | map => cases h
  | _ =>
      rw [putValue, h]
      · rfl
      all_goals simp

theorem sortKeys_of_leaf {v : Value} {l : Leaf} (h : leaf? v = .ok (some l)) :
    v.sortKeys = v := by
  cases v with
  | list | tuple | map => cases h
  | _ => rfl

/-! ### Lists -/

/-- By how much the lines of an item are indented: it stands one level deeper than the list, which is
indented itself. -/
def itemIndent : Nat := levelIndent + levelIndent

/-- What is written of a scalar between brackets, and the token that it is. -/
inductive LaysScalar : Value → List Char → Token → Prop
  | mk {v : Value} {l : Leaf} {cs : List Char} (leaf : leaf? v = .ok (some l)) (reads : l.ReadsAs v)
      (spelled : Spells false itemIndent l.text.toList (l.quotesIn false true) cs) :
      LaysScalar v cs (.scalar l.text (l.quotesIn false true = .plain))

/-- What stands between the comma after an item and the next item. -/
inductive IsJoint : List Char → Prop
  | blank : IsJoint [' ']
  | feed : IsJoint ('\n' :: indentation levelIndent)

/-- What is written after an item, up to the closing bracket. -/
inductive LaysRest : List Value → List Char → List Token → Prop
  | nil : LaysRest [] [] []
  | cons {v : Value} {vs : List Value} {gap cs ds : List Char} {t : Token} {ts : List Token}
      (joint : IsJoint gap) (item : LaysScalar v cs t) (rest : LaysRest vs ds ts) :
      LaysRest (v :: vs) (',' :: (gap ++ (cs ++ ds))) (.flowEntry :: t :: ts)

/-- What is written of a list between its brackets. -/
inductive LaysInline : List Value → List Char → List Token → Prop
  | nil : LaysInline [] [] []
  | cons {v : Value} {vs : List Value} {cs ds : List Char} {t : Token} {ts : List Token}
      (item : LaysScalar v cs t) (rest : LaysRest vs ds ts) :
      LaysInline (v :: vs) (cs ++ ds) (t :: ts)

/-! ### Writing -/

/-- A scalar of a list is written after a blank if there is none yet. -/
theorem putItem_lays {v : Value} (hv : Value.IsJsonScalar v) {s : Sheet}
    (hn : s.indent = some levelIndent) :
    ∃ cs t u, putValue .inline ⟨true, false, false⟩ s v = .ok u ∧ LaysScalar v cs t ∧
      s.Adds ((if s.blank then [] else [' ']) ++ cs) u ∧ u.Busy := by
  obtain ⟨l, hl, hreads⟩ := exists_leaf hv
  have hdeeper : (s.deeper true true).indent.getD 0 = itemIndent := by
    simp [Sheet.deeper, hn, itemIndent]
  obtain ⟨cs, hspelled, hadds, hbusy⟩ := l.put_spells (hreads.isSimpleIn false true)
    (fun _ => .inl (by decide)) hdeeper false
  exact ⟨cs, _, _, putValue_leaf hl .inline _ s, .mk hl hreads hspelled, hadds, hbusy⟩

/-- After a comma, the line goes on or ends. -/
theorem Sheet.Busy.wrap {s : Sheet} (hs : s.Busy) (hn : s.indent = some levelIndent) :
    ∃ lead, s.Adds lead s.wrap ∧ IsJoint (lead ++ if s.wrap.blank then [] else [' ']) := by
  have hgetD : s.indent.getD 0 = levelIndent := by rw [hn]; rfl
  unfold Sheet.wrap
  split
  · refine ⟨_, Sheet.newLine_adds hgetD (.inl hs.fresh), ?_⟩
    rw [Sheet.newLine_of_full hgetD (.inl hs.fresh), if_pos rfl, List.append_nil]
    exact .feed
  · refine ⟨[], .refl s, ?_⟩
    rw [hs.blank]
    exact .blank

theorem putFlowItems_rest {vs : List Value} (hvs : ∀ v ∈ vs, Value.IsJsonScalar v) {s : Sheet}
    (hs : s.Busy) (hn : s.indent = some levelIndent) :
    ∃ cs ts t, putFlowItems .inline false s vs = .ok t ∧ LaysRest vs cs ts ∧ s.Adds cs t ∧
      t.Busy := by
  induction vs generalizing s with
  | nil => exact ⟨[], [], s, by rw [putFlowItems], .nil, .refl s, hs⟩
  | cons v vs ih =>
      obtain ⟨hv, hvs⟩ := List.forall_mem_cons.1 hvs
      obtain ⟨hcomma, hbusy⟩ := s.mark_close_adds ","
      obtain ⟨lead, hwrap, hjoint⟩ := hbusy.wrap (hcomma.indent.trans hn)
      have hupto := hcomma.trans hwrap
      obtain ⟨cs, t, u, hput, hitem, hadds, hbusy'⟩ := putItem_lays hv (hupto.indent.trans hn)
      have hall := hupto.trans hadds
      obtain ⟨ds, ts, w, hrest, hlays, hadds', hbusy''⟩ := ih hvs hbusy' (hall.indent.trans hn)
      refine ⟨_, _, w, ?_, .cons hjoint hitem hlays, by simpa using hall.trans hadds', hbusy''⟩
      rw [putFlowItems]
      simp only [Bool.false_eq_true, if_false, hput, Result.ok_bind]
      exact hrest

theorem putFlowItems_lays {vs : List Value} (hvs : ∀ v ∈ vs, Value.IsJsonScalar v) {s : Sheet}
    (hblank : s.blank = true) (hcolumn : s.column ≤ bestWidth)
    (hn : s.indent = some levelIndent) :
    ∃ cs ts t, putFlowItems .inline true s vs = .ok t ∧ LaysInline vs cs ts ∧ s.Adds cs t := by
  cases vs with
  | nil => exact ⟨[], [], s, by rw [putFlowItems], .nil, .refl s⟩
  | cons v vs =>
      obtain ⟨hv, hvs⟩ := List.forall_mem_cons.1 hvs
      obtain ⟨cs, t, u, hput, hitem, hadds, hbusy⟩ := putItem_lays hv hn
      obtain ⟨ds, ts, w, hrest, hlays, hadds', -⟩ := putFlowItems_rest hvs hbusy
        (hadds.indent.trans hn)
      have hwrap : s.wrap = s := if_neg (Nat.not_lt.2 hcolumn)
      refine ⟨_, _, w, ?_, .cons hitem hlays, by simpa [hblank] using hadds.trans hadds'⟩
      rw [putFlowItems]
      simp only [if_true, hwrap, hput, Result.ok_bind]
      exact hrest

/-- What has been written ends its line when the document is done. -/
theorem text_newLine {s : Sheet} (hs : s.Busy) {cs : List Char} (hadds : Sheet.empty.Adds cs s) :
    s.newLine.text = String.ofList (cs ++ ['\n']) := by
  rw [Sheet.newLine_of_full (n := 0) (hadds.indent_getD rfl) (.inl hs.fresh)]
  refine String.toList_inj.1 ?_
  simp [hadds.chars, Sheet.empty, indentation]

/-- A list is written between brackets, on lines of its own. -/
theorem write_list {vs : List Value} (hvs : ∀ v ∈ vs, Value.IsJsonScalar v) :
    ∃ cs ts, write .inline (.list vs) = .ok (String.ofList ('[' :: (cs ++ [']', '\n']))) ∧
      LaysInline vs cs ts := by
  have hsorted : (Value.list vs).sortKeys = .list vs := by
    rw [Value.sortKeys, Json.sortAll_eq_map]
    refine congrArg Value.list ((List.map_congr_left fun v hv => ?_).trans (List.map_id vs))
    obtain ⟨l, hl, -⟩ := exists_leaf (hvs v hv)
    exact sortKeys_of_leaf hl
  obtain ⟨s, hs⟩ : ∃ s, s = (Sheet.empty.mark "[" true true false).deeper true true := ⟨_, rfl⟩
  obtain ⟨cs, ts, t, hput, hlays, hadds⟩ := putFlowItems_lays hvs (s := s) (hs ▸ rfl)
    (by rw [hs]; decide) (hs ▸ rfl)
  have hinner : Sheet.empty.Adds ('[' :: cs) { t with indent := none } :=
    ⟨by simp [hadds.chars, hs, Sheet.mark, Sheet.add, Sheet.deeper, Sheet.empty], rfl⟩
  obtain ⟨hclose, hbusy⟩ := Sheet.mark_close_adds { t with indent := none } "]"
  refine ⟨cs, ts, ?_, hlays⟩
  have hvalue : putValue .inline ⟨false, false, false⟩ .empty (.list vs) =
      .ok (Sheet.mark { t with indent := none } "]" false false false) := by
    rw [putValue]
    simp only [Style.inline, Bool.true_or, Bool.or_true, if_true, inBrackets]
    rw [← hs]
    change (putFlowItems .inline true s vs >>= _) = _
    rw [hput]
    rfl
  have htext := text_newLine hbusy (hinner.trans hclose)
  rw [write, hsorted, hvalue, Result.ok_bind]
  change Except.ok ((Sheet.newLine _).text ++ "") = _
  rw [htext]
  refine congrArg Except.ok (String.toList_inj.1 ?_)
  simp

/-- A text without gaps is written on one line. -/
theorem Folded.eq_of_gapless {n : Nat} {text out : List Char} (h : Folded List.singleton n text out)
    (htext : ∀ c ∈ text, isGapChar c = false) : out = text := by
  induction h with
  | nil => rfl
  | char _ _ ih => rw [ih (List.forall_mem_cons.1 htext).2]; rfl
  | @blanks k _ _ hk _ _ _ =>
      obtain ⟨k, rfl⟩ := Nat.exists_eq_succ_of_ne_zero (Nat.ne_of_gt hk)
      exact absurd (htext ' ' (.head _)) (by decide)
  | fold => exact absurd (htext ' ' (.head _)) (by decide)
  | @breaks bs _ _ nonempty hbs _ _ _ =>
      obtain ⟨b, hb⟩ := List.exists_mem_of_ne_nil _ nonempty
      have := htext b (List.mem_append_left _ hb)
      simp [isGapChar, hbs b hb] at this

/-- A scalar that is no text is written as it is, with a mark for the end of the document. -/
theorem write_scalar {v : Value} {l : Leaf} (hl : leaf? v = .ok (some l)) (hreads : l.ReadsAs v)
    (htag : l.tag ≠ .text) :
    write .inline v = .ok (String.ofList (l.text.toList ++ "\n...\n".toList)) := by
  have hquotes := hreads.quotesIn_eq_plain htag false false
  obtain ⟨cs, hspelled, hadds, hbusy⟩ := l.put_spells (hreads.isSimpleIn false false)
    (fun h => Quoting.noConfusion (hquotes.symm.trans h)) (s := .empty) rfl false
  have hopen : endsOpen .inline v = .ok true := by
    rw [endsOpen, hl]
    exact congrArg Except.ok (decide_eq_true hquotes)
  rw [hquotes] at hspelled
  cases hspelled with
  | plain lines =>
      obtain rfl := lines.eq_of_gapless fun c hc =>
        isGapChar_of_isQuiet ((hreads.calm htag).2.quiet c hc)
      rw [write, sortKeys_of_leaf hl, putValue_leaf hl, Result.ok_bind, hopen, Result.ok_bind]
      change Except.ok ((l.put false ⟨false, false, false⟩ .empty).newLine.text ++ "...\n") = _
      rw [text_newLine hbusy hadds]
      refine congrArg Except.ok (String.toList_inj.1 ?_)
      simp [Sheet.empty]

/-! ### What a layout looks like -/

theorem LaysScalar.clean {v : Value} {cs : List Char} {t : Token} (h : LaysScalar v cs t) :
    ∀ c ∈ cs, IsClean c := by
  obtain ⟨-, hreads, spelled⟩ := h
  exact spelled.clean fun hq =>
    (traits_quotable_iff.1 ((hreads.isSimpleIn false true).quotable hq)).2.2

theorem IsJoint.clean {cs : List Char} (h : IsJoint cs) : ∀ c ∈ cs, IsClean c := by
  cases h with
  | blank => exact List.forall_mem_singleton.2 (isClean_of_ascii (by decide))
  | feed => exact List.forall_mem_cons.2 ⟨isClean_feed, indentation_clean _⟩

theorem LaysRest.clean {vs : List Value} {cs : List Char} {ts : List Token} (h : LaysRest vs cs ts) :
    ∀ c ∈ cs, IsClean c := by
  induction h with
  | nil => exact List.forall_mem_nil _
  | cons joint item _ ih =>
      simp only [List.forall_mem_cons, List.forall_mem_append]
      exact ⟨isClean_of_ascii (by decide), joint.clean, item.clean, ih⟩

theorem LaysInline.clean {vs : List Value} {cs : List Char} {ts : List Token}
    (h : LaysInline vs cs ts) : ∀ c ∈ cs, IsClean c := by
  cases h with
  | nil => exact List.forall_mem_nil _
  | cons item rest => exact List.forall_mem_append.2 ⟨item.clean, rest.clean⟩

end Yaml

end FormDesigner
