import FormDesigner.Designer.Inspector
import FormDesigner.Proofs.Json.Image
import FormDesigner.Proofs.Result
import FormDesigner.Proofs.Schema.Shape
import FormDesigner.Proofs.Text.Trim
import Mathlib.Data.List.Forall2

/-!
# Options in the inspector

Each option is a line: its value, and its label behind a bar unless they are the same. Options come
back from their lines exactly if no value holds a bar, no label is empty, and no value or label ends
a line or has blanks around it.
-/

namespace FormDesigner

namespace Entries

variable {es : Entries}

theorem length_names (h : ∀ e ∈ es, ∃ s, e.1 = .text s) : (names es).length = es.length := by
  induction es with
  | nil => rfl
  | cons e es ih =>
      obtain ⟨⟨s, hs⟩, hes⟩ := List.forall_mem_cons.1 h
      obtain ⟨k, v⟩ := e
      obtain rfl : k = .text s := hs
      rw [names_cons_text, List.length_cons, List.length_cons, ih hes]

end Entries

namespace Inspector

/-! ### Lines -/

variable {l rest : List Char} {ls : List (List Char)}

/-- A text that holds no end of a line. -/
def IsOneLine (l : List Char) : Prop := ∀ c ∈ l, endsLine c = false

def isFilled (l : List Char) : Bool := !l.all Text.isBlank

theorem lines_append_end (h : IsOneLine l) : lines (l ++ '\n' :: rest) = l :: lines rest := by
  induction l with
  | nil =>
      have hend : endsLine '\n' = true := rfl
      simp [lines, hend]
  | cons c l ih =>
      obtain ⟨hc, hl⟩ := List.forall_mem_cons.1 h
      have hreturn : c ≠ '\r' := by
        rintro rfl
        cases hc
      simp [lines, hreturn, hc, ih hl]

theorem lines_of_isOneLine (h : IsOneLine l) (hne : l ≠ []) : lines l = [l] := by
  induction l with
  | nil => exact absurd rfl hne
  | cons c l ih =>
      obtain ⟨hc, hl⟩ := List.forall_mem_cons.1 h
      have hreturn : c ≠ '\r' := by
        rintro rfl
        cases hc
      cases l with
      | nil => simp [lines, hc]
      | cons d l => simp [lines, hreturn, hc, ih hl (List.cons_ne_nil _ _)]

/-- The filled lines of a text are those that were put into it. -/
theorem filter_lines (h : ∀ l ∈ ls, IsOneLine l) :
    (lines (['\n'].intercalate ls)).filter isFilled = ls.filter isFilled := by
  induction ls with
  | nil => rfl
  | cons l ls ih =>
      obtain ⟨hl, hls⟩ := List.forall_mem_cons.1 h
      cases ls with
      | nil =>
          by_cases hne : l = []
          · subst hne
            rfl
          · rw [List.intercalate_singleton, lines_of_isOneLine hl hne]
      | cons m ls =>
          rw [List.intercalate_cons_cons, List.append_assoc, List.singleton_append,
            lines_append_end hl, List.filter_cons, List.filter_cons, ih hls]

theorem isOneLine_of_mem_lines {cs : List Char} (h : l ∈ lines cs) : IsOneLine l := by
  have hnil : IsOneLine [] := List.forall_mem_nil _
  induction cs using lines.induct generalizing l with
  | case1 => cases h
  | case2 rest ih =>
      rw [lines] at h
      rcases List.mem_cons.1 h with rfl | h
      · exact hnil
      · exact ih h
  | case3 c rest hreturn hc ih =>
      rw [lines, if_pos hc] at h
      · rcases List.mem_cons.1 h with rfl | h
        · exact hnil
        · exact ih h
      · exact hreturn
  | case4 c rest hreturn hc m ms hlines ih =>
      rw [lines, if_neg hc, hlines] at h
      · rw [hlines] at ih
        rcases List.mem_cons.1 h with rfl | h
        · exact List.forall_mem_cons.2 ⟨Bool.eq_false_iff.2 hc, ih (.head _)⟩
        · exact ih (.tail _ h)
      · exact hreturn
  | case5 c rest hreturn hc hlines =>
      rw [lines, if_neg hc, hlines] at h
      · rw [List.mem_singleton.1 h]
        exact List.forall_mem_singleton.2 (Bool.eq_false_iff.2 hc)
      · exact hreturn

/-! ### An option and its line -/

/-- What an option consists of. -/
structure Choice where
  value : String
  label : String

namespace Choice

variable {o p : Choice} {v : Value}

def toValue (o : Choice) : Value := .ofFields [("value", .text o.value), ("label", .text o.label)]

def line (o : Choice) : String :=
  if o.label = o.value then o.value else o.value ++ " | " ++ o.label

/-- The option that a line writes. -/
def ofLine (l : List Char) : Choice :=
  let value := Text.trimChars (l.takeWhile (· != '|'))
  let label := Text.trimChars ((l.dropWhile (· != '|')).drop 1)
  ⟨String.ofList value, String.ofList (if label.isEmpty then value else label)⟩

/-- Options have the shape that is asked of them. -/
theorem option_toValue (o : Choice) : Shape.option o.toValue = [] := by
  refine Shape.attributes_eq_nil_iff.2 ⟨by simp, ?_, ?_⟩
  · simp only [List.forall_mem_cons]
    exact ⟨fun _ => ⟨_, Entries.get?_ofFields (by simp) (.head _)⟩,
      fun _ => ⟨_, Entries.get?_ofFields (by simp) (.tail _ (.head _))⟩, List.forall_mem_nil _⟩
  · intro a ha v hv
    have hcheck : a.check = Shape.text := by
      simp only [List.mem_cons, List.not_mem_nil, or_false] at ha
      rcases ha with rfl | rfl <;> rfl
    have hmem := Entries.mem_of_get?_eq_some hv
    simp only [List.map_cons, List.map_nil, List.mem_cons, Prod.mk.injEq, List.not_mem_nil,
      or_false] at hmem
    rw [hcheck]
    rcases hmem with ⟨-, rfl⟩ | ⟨-, rfl⟩ <;> rfl

/-- An option that a line of its own can write. -/
structure IsWritable (o : Choice) : Prop where
  value_bar : '|' ∉ o.value.toList
  value_trim : Text.trim o.value = o.value
  label_trim : Text.trim o.label = o.label
  label_ne : o.label ≠ ""
  value_line : IsOneLine o.value.toList
  label_line : IsOneLine o.label.toList

theorem IsWritable.line_isOneLine (h : o.IsWritable) : IsOneLine o.line.toList := by
  unfold line
  split
  · exact h.value_line
  · rw [String.toList_append, String.toList_append]
    exact List.forall_mem_append.2
      ⟨List.forall_mem_append.2 ⟨h.value_line, by simp [endsLine]⟩, h.label_line⟩

theorem IsWritable.ofLine_line (h : o.IsWritable) : ofLine o.line.toList = o := by
  have hbar : ∀ c ∈ o.value.toList, (c != '|') = true := by
    intro c hc
    rw [bne_iff_ne]
    rintro rfl
    exact h.value_bar hc
  have hvalue := Text.trimChars_toList h.value_trim
  unfold line
  split
  · next hsame =>
      obtain ⟨value, label⟩ := o
      obtain rfl : label = value := hsame
      have htake : label.toList.takeWhile (· != '|') = label.toList :=
        List.takeWhile_eq_self_iff.2 hbar
      have hdrop : label.toList.dropWhile (· != '|') = [] := List.dropWhile_eq_nil_iff.2 hbar
      have hnil : Text.trimChars [] = [] := rfl
      simp only [ofLine, htake, hdrop, hnil, hvalue, List.drop_nil, List.isEmpty_nil, if_true,
        String.ofList_toList]
  · next hdiffer =>
      have hline : (o.value ++ " | " ++ o.label).toList =
          (o.value.toList ++ [' ']) ++ '|' :: (' ' :: o.label.toList) := by
        simp
      have hbefore : ∀ c ∈ o.value.toList ++ [' '], (c != '|') = true :=
        List.forall_mem_append.2 ⟨hbar, by simp⟩
      have htake : ((o.value.toList ++ [' ']) ++ '|' :: (' ' :: o.label.toList)).takeWhile
          (· != '|') = o.value.toList ++ [' '] := by
        rw [List.takeWhile_append_of_pos hbefore]
        simp
      have hdrop : ((o.value.toList ++ [' ']) ++ '|' :: (' ' :: o.label.toList)).dropWhile
          (· != '|') = '|' :: (' ' :: o.label.toList) := by
        rw [List.dropWhile_append_of_pos hbefore]
        simp
      have hlabel := Text.trimChars_toList h.label_trim
      rw [hline, ofLine, htake, hdrop, Text.trimChars_append_blank, List.drop_one, List.tail_cons,
        Text.trimChars_cons_blank, hvalue, hlabel]
      simp [h.label_ne]

theorem IsWritable.isFilled_line (h : o.IsWritable) : isFilled o.line.toList = true := by
  rw [isFilled, Bool.not_eq_true', ← Bool.not_eq_true]
  intro hblank
  unfold line at hblank
  split at hblank
  · next hsame =>
      have hempty := Text.trim_of_isAllBlank hblank
      rw [h.value_trim, ← hsame] at hempty
      exact h.label_ne hempty
  · have hbar : '|' ∈ (o.value ++ " | " ++ o.label).toList := by simp
    exact absurd (List.all_eq_true.1 hblank _ hbar) (by decide)

/-- An option without a label has no value either. -/
theorem line_of_label_eq {l : List Char} (h : (ofLine l).label = "") :
    (ofLine l).line.toList = [] := by
  have hvalue : (ofLine l).value = "" := by
    simp only [ofLine, String.ofList_eq_empty_iff] at h ⊢
    split at h
    · exact h
    · next hne => exact absurd (List.isEmpty_iff.2 h) hne
  rw [line, if_pos (h.trans hvalue.symm), hvalue]
  rfl

/-- What a line writes can be written again, unless it has no label. -/
theorem isWritable_ofLine {l : List Char} (hl : IsOneLine l) (hne : (ofLine l).label ≠ "") :
    (ofLine l).IsWritable := by
  have hvalue : ∀ c ∈ Text.trimChars (l.takeWhile (· != '|')), c ∈ l ∧ (c != '|') = true :=
    fun c hc =>
      have hc := Text.mem_of_mem_trimChars hc
      ⟨(List.takeWhile_sublist _).subset hc, List.mem_takeWhile_imp (p := fun c => c != '|') hc⟩
  have hlabel : ∀ c ∈ Text.trimChars ((l.dropWhile (· != '|')).drop 1), c ∈ l := fun c hc =>
    (List.dropWhile_sublist _).subset (List.mem_of_mem_drop (Text.mem_of_mem_trimChars hc))
  refine ⟨?_, Text.trim_ofList_trimChars _, ?_, hne, ?_, ?_⟩
  · rw [ofLine, String.toList_ofList]
    exact fun hbar => absurd (hvalue _ hbar).2 (by decide)
  · simp only [ofLine]
    split
    · exact Text.trim_ofList_trimChars _
    · exact Text.trim_ofList_trimChars _
  · rw [ofLine, String.toList_ofList]
    exact fun c hc => hl c (hvalue c hc).1
  · simp only [ofLine, String.toList_ofList]
    split
    · exact fun c hc => hl c (hvalue c hc).1
    · exact fun c hc => hl c (hlabel c hc)

end Choice

/-! ### All options -/

open Choice (ofLine)

variable {xs : List Value} {os : List Choice}

/-- A value is an option with its value and its label, and nothing else. -/
structure Choice.IsWrittenIn (o : Choice) (v : Value) : Prop where
  entries : ∃ es, v = .map es ∧ es.length = 2
  value : v.get? "value" = some (.text o.value)
  label : v.get? "label" = some (.text o.label)

theorem Choice.exists_writtenIn {v : Value} (hv : v.IsJson) (h : Shape.option v = []) :
    ∃ o : Choice, o.IsWrittenIn v := by
  cases v with
  | map es =>
      obtain ⟨known, present, valid⟩ := Shape.attributes_eq_nil_iff.1 h
      have htext : ∀ n ∈ ["value", "label"], ∃ s, Entries.get? es (.text n) = some (.text s) := by
        have hdeclared : ∀ n ∈ ["value", "label"], ⟨n, true, Shape.text⟩ ∈
            ([⟨"value", true, Shape.text⟩, ⟨"label", true, Shape.text⟩] : List Shape.Attribute) := by
          simp
        intro n hn
        obtain ⟨w, hw⟩ := present _ (hdeclared n hn) rfl
        obtain ⟨s, rfl⟩ := Shape.text_eq_nil_iff.1 (valid _ (hdeclared n hn) w hw)
        exact ⟨s, hw⟩
      have hnames : (Entries.names es).Perm ["value", "label"] := by
        refine (List.perm_ext_iff_of_nodup hv.names_nodup (by decide)).2 fun n => ?_
        rw [Entries.mem_names_iff]
        constructor
        · rintro ⟨w, hw⟩
          obtain ⟨a, ha, hname⟩ := known _ hw
          obtain rfl := Value.text.inj hname
          simpa using List.mem_map_of_mem (f := Shape.Attribute.name) ha
        · intro hn
          obtain ⟨s, hs⟩ := htext n hn
          exact ⟨_, Entries.mem_of_get?_eq_some hs⟩
      obtain ⟨value, hvalue⟩ := htext "value" (by decide)
      obtain ⟨label, hlabel⟩ := htext "label" (by decide)
      refine ⟨⟨value, label⟩, ⟨es, rfl, ?_⟩, hvalue, hlabel⟩
      rw [← Entries.length_names fun e he => ?_, hnames.length_eq]
      · rfl
      · obtain ⟨a, -, hname⟩ := known e he
        exact ⟨a.name, hname⟩
  | _ => exact absurd h Shape.here_ne_nil

theorem Choice.isJson_toValue (o : Choice) : o.toValue.IsJson := by
  refine Value.IsIn.ofFields (by simp) ?_
  simp only [List.forall_mem_cons]
  exact ⟨.text _, .text _, List.forall_mem_nil _⟩

theorem Choice.isWrittenIn_toValue (o : Choice) : o.IsWrittenIn o.toValue where
  entries := ⟨_, rfl, rfl⟩
  value := Entries.get?_ofFields (by simp) (.head _)
  label := Entries.get?_ofFields (by simp) (.tail _ (.head _))

theorem Choice.IsWrittenIn.unique {o p : Choice} {v : Value} (ho : o.IsWrittenIn v)
    (hp : p.IsWrittenIn v) : o = p := by
  have hvalue := Value.text.inj (Option.some.inj (ho.value.symm.trans hp.value))
  have hlabel := Value.text.inj (Option.some.inj (ho.label.symm.trans hp.label))
  obtain ⟨value, label⟩ := o
  exact congrArg₂ Choice.mk hvalue hlabel

theorem Choice.forall_isWritable_iff (h : List.Forall₂ Choice.IsWrittenIn os xs) :
    (∀ o ∈ os, o.IsWritable) ↔ ∀ x ∈ xs, ∀ o : Choice, o.IsWrittenIn x → o.IsWritable := by
  induction h with
  | nil => exact iff_of_true (List.forall_mem_nil _) (List.forall_mem_nil _)
  | cons ho _ ih =>
      rw [List.forall_mem_cons, List.forall_mem_cons, ih]
      exact and_congr_left fun _ => ⟨fun hw p hp => ho.unique hp ▸ hw, fun hw => hw _ ho⟩

theorem Choice.exists_all_writtenIn (hxs : ∀ x ∈ xs, x.IsJson)
    (h : ∀ x ∈ xs, Shape.option x = []) : ∃ os, List.Forall₂ Choice.IsWrittenIn os xs := by
  induction xs with
  | nil => exact ⟨[], .nil⟩
  | cons x xs ih =>
      obtain ⟨hx, hxs⟩ := List.forall_mem_cons.1 hxs
      obtain ⟨hoption, hoptions⟩ := List.forall_mem_cons.1 h
      obtain ⟨o, ho⟩ := Choice.exists_writtenIn hx hoption
      obtain ⟨os, hos⟩ := ih hxs hoptions
      exact ⟨o :: os, .cons ho hos⟩

theorem Choice.IsWrittenIn.optionLine {o : Choice} {v : Value} (h : o.IsWrittenIn v) :
    optionLine v = .ok o.line := by
  rw [Inspector.optionLine, Value.entry_eq_ok_iff.2 h.label, Value.entry_eq_ok_iff.2 h.value]
  simp only [Result.ok_bind, Value.equals, beq_iff_eq, Choice.line]
  split
  · rfl
  · rfl

theorem Choice.IsWrittenIn.equals_iff {o p : Choice} {v : Value} (h : o.IsWrittenIn v) :
    p.toValue.equals v = true ↔ p = o := by
  obtain ⟨es, rfl, hlength⟩ := h.entries
  have hentry : ∀ {n s t : String}, (Value.map es).get? n = some (.text s) →
      ((∃ f, es.find? (fun f => (Value.text n).same f.1) = some f ∧
        (Value.text t).same f.2 = true) ↔ t = s) := by
    intro n s t hget
    obtain ⟨f, hf, hfs⟩ := Option.map_eq_some_iff.1 hget
    rw [hf]
    constructor
    · rintro ⟨_, ⟨⟩, hsame⟩
      rw [hfs, Value.same_text_iff] at hsame
      exact (Value.text.inj hsame).symm
    · rintro rfl
      exact ⟨f, rfl, by rw [hfs, Value.same_text_iff]⟩
  rw [Choice.toValue, Value.ofFields, Value.equals, Bool.and_eq_true, Value.allEntriesAmong_iff]
  simp only [List.map_cons, List.map_nil, List.forall_mem_cons, hentry h.value, hentry h.label,
    List.length_cons, List.length_nil, hlength, beq_self_eq_true, true_and]
  cases o
  cases p
  simp

/-- The options of a list equal others exactly if they are the same. -/
theorem equals_list_iff {ps : List Choice} (h : List.Forall₂ Choice.IsWrittenIn os xs) :
    (Value.list (ps.map Choice.toValue)).equals (.list xs) = true ↔ ps = os := by
  rw [Value.equals]
  induction h generalizing ps with
  | nil => cases ps <;> simp [Value.equalItems]
  | cons ho _ ih =>
      cases ps with
      | nil => simp [Value.equalItems]
      | cons p ps =>
          have hnan : ∀ v, Value.sameNan p.toValue v = false := fun _ => rfl
          rw [List.map_cons, Value.equalItems, hnan, Bool.false_or, Bool.and_eq_true, ho.equals_iff,
            ih, List.cons.injEq]

theorem optionsText_eq (h : List.Forall₂ Choice.IsWrittenIn os xs) :
    optionsText (.list xs) = .ok ("\n".intercalate (os.map Choice.line)) := by
  have hlines : xs.mapM optionLine = .ok (os.map Choice.line) := by
    induction h with
    | nil => rfl
    | cons ho _ ih => exact Result.mapM_cons.2 ⟨_, _, ho.optionLine, ih, rfl⟩
  cases xs with
  | nil =>
      cases h
      rfl
  | cons x xs =>
      change (do let ls ← (x :: xs).mapM optionLine; pure ("\n".intercalate ls)) = _
      rw [hlines]
      rfl

/-- The options of a field come back from their lines exactly if each can be written on one. -/
theorem exists_options (h : List.Forall₂ Choice.IsWrittenIn os xs) :
    ∃ s ps, optionsText (.list xs) = .ok s ∧
      parseOptions (.text s) = .ok (ps.map Choice.toValue) ∧
        (ps = os ↔ ∀ o ∈ os, o.IsWritable) := by
  refine ⟨_, ((lines ("\n".intercalate (os.map Choice.line)).toList).filter isFilled).map ofLine,
    optionsText_eq h, ?_, ?_⟩
  · rw [List.map_map]
    rfl
  have hjoined : ("\n".intercalate (os.map Choice.line)).toList =
      ['\n'].intercalate (os.map fun o => o.line.toList) := by
    rw [String.toList_intercalate, List.map_map]
    rfl
  rw [hjoined]
  constructor
  · intro heq
    have hcases : ∀ o ∈ os, o.IsWritable ∨ o.line.toList = [] := by
      intro o ho
      rw [← heq] at ho
      obtain ⟨l, hl, rfl⟩ := List.mem_map.1 ho
      by_cases hlabel : (ofLine l).label = ""
      · exact .inr (Choice.line_of_label_eq hlabel)
      · exact .inl (Choice.isWritable_ofLine
          (isOneLine_of_mem_lines (List.mem_of_mem_filter hl)) hlabel)
    have hone : ∀ l ∈ os.map fun o => o.line.toList, IsOneLine l := by
      refine List.forall_mem_map.2 fun o ho => ?_
      rcases hcases o ho with hw | hnil
      · exact hw.line_isOneLine
      · rw [hnil]
        exact List.forall_mem_nil _
    -- No line is left out, so none is blank.
    have hlength := congrArg List.length heq
    have hlines : (os.map fun o => o.line.toList).length = os.length := List.length_map _
    rw [filter_lines hone, List.length_map, ← hlines, List.length_filter_eq_length_iff] at hlength
    intro o ho
    rcases hcases o ho with hw | hnil
    · exact hw
    · have hfilled := hlength _ (List.mem_map_of_mem ho)
      rw [hnil] at hfilled
      cases hfilled
  · intro hw
    have hone : ∀ l ∈ os.map fun o => o.line.toList, IsOneLine l :=
      List.forall_mem_map.2 fun o ho => (hw o ho).line_isOneLine
    have hfilled : ∀ l ∈ os.map fun o => o.line.toList, isFilled l = true :=
      List.forall_mem_map.2 fun o ho => (hw o ho).isFilled_line
    rw [filter_lines hone, List.filter_eq_self.2 hfilled, List.map_map]
    exact (List.map_congr_left fun o ho => (hw o ho).ofLine_line).trans (List.map_id' os)

end Inspector

end FormDesigner
