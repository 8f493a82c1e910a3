import FormDesigner.Proofs.Json.Image
import FormDesigner.Proofs.Json.Scalar
import FormDesigner.Proofs.Result

/-!
# What is written is read back

A text writes a value if it is read as that value wherever something follows that cannot be taken
for more of a number. The text of a scalar writes it; the items of a list and the members of a
mapping write them between brackets, whatever the style puts around them. So every text that is
written, in whatever style, is read as the image of the value.
-/

namespace FormDesigner

namespace Json

open Value (IsIn)

variable {cs gap rest : List Char} {v : Value} {fuel level : Nat} {s : Style}

/-! ### Blanks -/

def IsGap (cs : List Char) : Prop := ∀ c ∈ cs, isJsonBlank c = true

theorem isGap_nil : IsGap [] := List.forall_mem_nil _

theorem skipBlanks_gap (hgap : IsGap gap) {c : Char} (hc : isJsonBlank c = false)
    (rest : List Char) : skipBlanks (gap ++ c :: rest) = c :: rest := by
  rw [skipBlanks, List.dropWhile_append_of_pos hgap, List.dropWhile_cons_of_neg (by simp [hc])]

theorem skipBlanks_of_head? {c : Char} (h : cs.head? = some c) (hc : isJsonBlank c = false)
    (hgap : IsGap gap) (rest : List Char) : skipBlanks (gap ++ (cs ++ rest)) = cs ++ rest := by
  obtain ⟨tail, rfl⟩ : ∃ tail, cs = c :: tail := List.head?_eq_some_iff.1 h
  exact skipBlanks_gap hgap hc _

theorem endsNumber_gap (hgap : IsGap gap) {c : Char}
    (hc : c = ',' ∨ c = ']' ∨ c = '\x7d') (rest : List Char) :
    Text.EndsNumber (gap ++ c :: rest) := by
  intro d hd
  have hd' : isJsonBlank d = true ∨ d = c := by
    cases gap with
    | nil => exact .inr (by simpa [eq_comm] using hd)
    | cons g gap =>
        obtain rfl : g = d := by simpa using hd
        exact .inl (hgap _ List.mem_cons_self)
  rcases hd' with h | rfl
  · simp only [isJsonBlank, Bool.or_eq_true, decide_eq_true_eq] at h
    rcases h with ((rfl | rfl) | rfl) | rfl <;> decide
  · rcases hc with rfl | rfl | rfl <;> decide

theorem isGap_lineBreak (s : Style) (level : Nat) : IsGap (s.lineBreak level).toList := by
  intro c hc
  unfold Style.lineBreak at hc
  split at hc
  · rw [String.toList_append, List.mem_append] at hc
    rcases hc with hc | hc
    · obtain rfl : c = '\n' := by simpa using hc
      rfl
    · rw [String.toList_ofList] at hc
      obtain rfl : c = ' ' := List.eq_of_mem_replicate hc
      rfl
  · simp at hc

/-- What separates two items is a comma and blanks. -/
theorem toList_separator (s : Style) (level : Nat) :
    ∃ gap, IsGap gap ∧ (s.separator level).toList = ',' :: gap := by
  unfold Style.separator
  split
  · exact ⟨_, isGap_lineBreak s level, by simp⟩
  · exact ⟨[' '], fun c hc => by rw [List.mem_singleton.1 hc]; rfl, by decide⟩

/-! ### Texts of values -/

/-- A text is read as a value, whatever stands behind it. -/
structure Writes (cs : List Char) (v : Value) : Prop where
  begins : ∃ c, cs.head? = some c ∧ isJsonBlank c = false ∧ c ≠ ']'
  reads : ∀ {rest : List Char} {fuel : Nat}, Text.EndsNumber rest → cs.length ≤ fuel →
    readValue fuel (cs ++ rest) = .ok (v, rest)

theorem Writes.skipBlanks (h : Writes cs v) (hgap : IsGap gap) (rest : List Char) :
    Json.skipBlanks (gap ++ (cs ++ rest)) = cs ++ rest := by
  obtain ⟨c, hc, hblank, -⟩ := h.begins
  exact skipBlanks_of_head? hc hblank hgap rest

private theorem readValue_scalar {c : Char} (hc : c ≠ '\x22' ∧ c ≠ '[' ∧ c ≠ '\x7b') (fuel : Nat)
    (cs : List Char) :
    readValue (fuel + 1) (c :: cs) =
      match word? (c :: cs) with
      | some r => .ok r
      | none => readNumber (c :: cs) := by
  unfold readValue
  split
  · exact absurd (List.cons.inj ‹_›).1 hc.1
  · exact absurd (List.cons.inj ‹_›).1 hc.2.1
  · exact absurd (List.cons.inj ‹_›).1 hc.2.2
  · rfl

private theorem writes_scalar {c : Char} {tail : List Char}
    (hc : c ≠ '\x22' ∧ c ≠ '[' ∧ c ≠ '\x7b' ∧ c ≠ ']' ∧ isJsonBlank c = false)
    (h : ∀ rest, Text.EndsNumber rest →
      (match word? (c :: tail ++ rest) with
        | some r => .ok r
        | none => readNumber (c :: tail ++ rest) : Except ReadFault (Value × List Char)) =
        .ok (v, rest)) :
    Writes (c :: tail) v := by
  refine ⟨⟨c, rfl, hc.2.2.2.2, hc.2.2.2.1⟩, ?_⟩
  intro rest fuel hrest hfuel
  obtain ⟨fuel, rfl⟩ : ∃ n, fuel = n + 1 := ⟨fuel - 1, by simp at hfuel; omega⟩
  rw [List.cons_append, readValue_scalar ⟨hc.1, hc.2.1, hc.2.2.1⟩]
  exact h rest hrest

/-- Each word for a value writes it. -/
theorem writes_word {w : String} (h : (w, v) ∈ words) : Writes w.toList v := by
  have hword : ∃ c tail, w.toList = c :: tail ∧
      (c ≠ '\x22' ∧ c ≠ '[' ∧ c ≠ '\x7b' ∧ c ≠ ']' ∧ isJsonBlank c = false) ∧
      ∀ rest, word? (c :: tail ++ rest) = some (v, rest) := by
    simp only [words, List.mem_cons, Prod.mk.injEq, List.not_mem_nil, or_false] at h
    rcases h with ⟨rfl, rfl⟩ | ⟨rfl, rfl⟩ | ⟨rfl, rfl⟩ | ⟨rfl, rfl⟩ | ⟨rfl, rfl⟩ | ⟨rfl, rfl⟩ <;>
      exact ⟨_, _, rfl, by decide, fun rest => rfl⟩
  obtain ⟨c, tail, hw, hc, hread⟩ := hword
  rw [hw]
  exact writes_scalar hc fun rest _ => by rw [hread]

private theorem isDigit_head {c : Char} (hc : c.isDigit = true) :
    c ≠ '\x22' ∧ c ≠ '[' ∧ c ≠ '\x7b' ∧ c ≠ ']' ∧ isJsonBlank c = false := by
  have hne : ∀ d : Char, d.isDigit = false → c ≠ d := by
    rintro d hd rfl
    exact absurd hc (by simp [hd])
  refine ⟨hne _ (by decide), hne _ (by decide), hne _ (by decide), hne _ (by decide), ?_⟩
  simp [isJsonBlank, hne ' ' (by decide), hne '\t' (by decide), hne '\n' (by decide),
    hne '\r' (by decide)]

private theorem word?_eq_none {c : Char} (hc : c.isDigit = true) (negative : Bool)
    (cs : List Char) : word? (signed negative (c :: cs)) = none := by
  have hne : ∀ d : Char, d.isDigit = false → d ≠ c := by
    rintro d hd rfl
    exact absurd hc (by simp [hd])
  cases negative
  · simp [word?, words, signed, hne 'n' (by decide), hne 't' (by decide), hne 'f' (by decide),
      hne 'N' (by decide), hne 'I' (by decide), hne '-' (by decide)]
  · simp [word?, words, signed, hne 'I' (by decide)]

/-- What is read as a number from its sign on writes that number. -/
private theorem writes_signed (negative : Bool) {c : Char} {tail : List Char}
    (hc : c.isDigit = true)
    (h : ∀ rest, Text.EndsNumber rest →
      readNumber (signed negative (c :: tail ++ rest)) = .ok (v, rest)) :
    Writes (signed negative (c :: tail)) v := by
  have hnumber : ∀ rest, Text.EndsNumber rest →
      (match word? (signed negative (c :: (tail ++ rest))) with
        | some r => .ok r
        | none => readNumber (signed negative (c :: (tail ++ rest))) :
        Except ReadFault (Value × List Char)) = .ok (v, rest) := by
    intro rest hrest
    rw [word?_eq_none hc]
    exact h rest hrest
  cases negative
  · exact writes_scalar (isDigit_head hc) hnumber
  · exact writes_scalar (by decide) hnumber

theorem writes_integer {n : Int} {t : String} (h : integerText n = .ok t) :
    Writes t.toList (.int n) := by
  obtain ⟨hn, ht⟩ := toList_integerText h
  have hvalue : (if decide (n < 0) = true then -(n.natAbs : Int) else n.natAbs) = n := by
    by_cases hneg : n < 0
    · rw [decide_eq_true hneg, if_pos rfl]
      omega
    · rw [decide_eq_false hneg, if_neg (by simp)]
      omega
  cases hdigits : Nat.toDigits 10 n.natAbs with
  | nil => exact absurd hdigits Nat.toDigits_ne_nil
  | cons c tail =>
      have hc : c.isDigit = true :=
        Nat.isDigit_of_mem_toDigits (by decide) (by decide)
          (show c ∈ Nat.toDigits 10 n.natAbs by rw [hdigits]; exact List.mem_cons_self)
      rw [ht, hdigits]
      refine writes_signed _ hc fun rest hrest => ?_
      rw [← hdigits, readNumber_toDigits _ hn hrest, hvalue]

theorem writes_float (x : Binary64) :
    Writes (numberText x).toList (image s.sorted (.float x)) := by
  cases x with
  | nan a => exact writes_word (by simp [words, image, numberText])
  | infinite negative => cases negative <;> exact writes_word (by simp [words, image, numberText])
  | finite negative m e canonical =>
      obtain ⟨w, hw, hfloat, htext, hbinary⟩ := Binary64.text_eq_chars negative canonical
      change Writes (Binary64.text (.finite negative m e canonical)).toList
        (.float (.finite negative m e canonical))
      rw [htext, ← hbinary]
      cases hchars : w.chars with
      | nil =>
          simp only [WrittenDecimal.chars, List.append_eq_nil_iff] at hchars
          exact absurd hchars.1.1 hw.whole_ne_nil
      | cons c tail =>
          have hc : c.isDigit = true := by
            cases hwhole : w.whole with
            | nil => exact absurd hwhole hw.whole_ne_nil
            | cons d ds =>
                obtain rfl : d = c := by
                  simp only [WrittenDecimal.chars, hwhole, List.cons_append] at hchars
                  exact (List.cons.inj hchars).1
                exact hw.whole_digits d (by rw [hwhole]; exact List.mem_cons_self)
          refine writes_signed negative hc fun rest hrest => ?_
          rw [← hchars]
          exact readNumber_chars negative hw hfloat hrest

theorem writes_text (ascii : Bool) (t : String) :
    Writes (Text.escaped ascii t).toList (.text t) := by
  rw [toList_escaped]
  refine ⟨⟨'\x22', rfl, by decide, by decide⟩, ?_⟩
  intro rest fuel _ hfuel
  obtain ⟨fuel, rfl⟩ : ∃ n, fuel = n + 1 := ⟨fuel - 1, by simp at hfuel; omega⟩
  rw [List.cons_append, List.append_assoc, readValue]
  rw [List.singleton_append, textBody_flatMap]
  rfl

/-! ### Items and members -/

/-- The texts of further items, each behind a comma and blanks. -/
def others (sep : List Char) (texts : List (List Char)) : List Char :=
  texts.flatMap fun t => ',' :: (sep ++ t)

theorem intercalate_eq_others (sep t : List Char) (ts : List (List Char)) :
    (',' :: sep).intercalate (t :: ts) = t ++ others sep ts := by
  induction ts generalizing t with
  | nil => simp [others]
  | cons u ts ih =>
      rw [List.intercalate_cons_cons, ih u, others, others, List.flatMap_cons]
      simp [List.append_assoc]

/-- Between its brackets, a container has blanks, the texts of its items and blanks. -/
theorem toList_bracket (s : Style) (level : Nat) (opening closing : String) {a b : Char}
    (hopening : opening.toList = [a]) (hclosing : closing.toList = [b]) (t : String)
    (ts : List String) :
    ∃ before sep after, IsGap before ∧ IsGap sep ∧ IsGap after ∧
      (s.bracket level opening closing (t :: ts)).toList =
        a :: (before ++ (t.toList ++ (others sep (ts.map String.toList) ++ (after ++ [b])))) := by
  obtain ⟨sep, hsep, htext⟩ := toList_separator s (level + 1)
  refine ⟨_, sep, _, isGap_lineBreak s (level + 1), hsep, isGap_lineBreak s level, ?_⟩
  rw [Style.bracket, if_neg (by simp)]
  simp only [String.toList_append, String.toList_intercalate, htext, List.map_cons,
    intercalate_eq_others, List.append_assoc, hopening, hclosing, List.nil_append,
    List.cons_append]

section

variable {α : Type} {t : α → List Char} {f : α → Value} {sep after : List Char}

private theorem endsNumber_others (sep : List Char) (t : α → List Char) (hafter : IsGap after)
    {c : Char} (hc : c = ']' ∨ c = '\x7d') (xs : List α) (rest : List Char) :
    Text.EndsNumber (others sep (xs.map t) ++ (after ++ c :: rest)) := by
  cases xs with
  | nil => exact endsNumber_gap hafter (.inr hc) rest
  | cons x xs =>
      exact endsNumber_gap isGap_nil (c := ',') (.inl rfl) _

private theorem readItems_last {cs behind : List Char} (hv : readValue fuel cs = .ok (v, behind))
    (hbehind : Json.skipBlanks behind = ']' :: rest) :
    readItems (fuel + 1) cs = .ok ([v], rest) := by
  rw [readItems, hv, Result.ok_bind]
  dsimp only
  rw [hbehind]
  rfl

private theorem readItems_more {cs behind tail : List Char} {vs : List Value}
    (hv : readValue fuel cs = .ok (v, behind)) (hbehind : Json.skipBlanks behind = ',' :: tail)
    (hvs : readItems fuel (Json.skipBlanks tail) = .ok (vs, rest)) :
    readItems (fuel + 1) cs = .ok (v :: vs, rest) := by
  rw [readItems, hv, Result.ok_bind]
  dsimp only
  rw [hbehind]
  change (readItems fuel (Json.skipBlanks tail) >>= _) = _
  rw [hvs]
  rfl

private theorem others_cons (y : α) (ys : List α) (behind : List Char) :
    others sep ((y :: ys).map t) ++ behind =
      ',' :: (sep ++ (t y ++ (others sep (ys.map t) ++ behind))) := by
  simp [others]

private theorem readItems_others (hsep : IsGap sep) (hafter : IsGap after) (rest : List Char)
    (xs : List α) (x : α) (hxs : ∀ y ∈ x :: xs, Writes (t y) (f y)) {fuel : Nat}
    (hfuel : (t x ++ others sep (xs.map t)).length < fuel) :
    readItems fuel (t x ++ (others sep (xs.map t) ++ (after ++ ']' :: rest))) =
      .ok (f x :: xs.map f, rest) := by
  induction xs generalizing x fuel with
  | nil =>
      obtain ⟨fuel, rfl⟩ : ∃ n, fuel = n + 1 := ⟨fuel - 1, by omega⟩
      have hx := (hxs x List.mem_cons_self).reads
        (endsNumber_others sep t hafter (.inl rfl) [] rest)
        (show (t x).length ≤ fuel by rw [List.length_append] at hfuel; omega)
      exact readItems_last hx (skipBlanks_gap hafter (by decide) rest)
  | cons y ys ih =>
      obtain ⟨fuel, rfl⟩ : ∃ n, fuel = n + 1 := ⟨fuel - 1, by omega⟩
      rw [← List.append_nil (others _ _), others_cons, List.append_nil] at hfuel
      simp only [List.length_append, List.length_cons] at hfuel
      have hx := (hxs x List.mem_cons_self).reads
        (endsNumber_others sep t hafter (.inl rfl) (y :: ys) rest)
        (show (t x).length ≤ fuel by omega)
      rw [others_cons] at hx ⊢
      refine readItems_more hx (skipBlanks_gap isGap_nil (by decide) _) ?_
      rw [(hxs y (by simp)).skipBlanks hsep]
      exact ih y (fun z hz => hxs z (List.mem_cons_of_mem _ hz))
        (by rw [List.length_append]; omega)

end

private theorem readValue_list {cs : List Char} {c : Char} {vs : List Value}
    (hcs : (Json.skipBlanks cs).head? = some c) (hc : c ≠ ']')
    (hvs : readItems fuel (Json.skipBlanks cs) = .ok (vs, rest)) :
    readValue (fuel + 1) ('[' :: cs) = .ok (.list vs, rest) := by
  obtain ⟨tail, htail⟩ := List.head?_eq_some_iff.1 hcs
  rw [htail] at hvs
  unfold readValue
  simp only [htail]
  split
  · exact absurd (List.cons.inj ‹_›).1 hc
  · rw [hvs]
    rfl

/-- A list whose items' texts write its items is written by those texts between brackets. -/
theorem writes_list {α : Type} (xs : List α) {t : α → String} {f : α → Value}
    (hxs : ∀ x ∈ xs, Writes (t x).toList (f x)) :
    Writes (s.bracket level "[" "]" (xs.map t)).toList (.list (xs.map f)) := by
  cases xs with
  | nil =>
      have htext : (s.bracket level "[" "]" (([] : List α).map t)).toList = ['[', ']'] := by
        simp [Style.bracket]
      rw [htext]
      refine ⟨⟨'[', rfl, by decide, by decide⟩, ?_⟩
      intro rest fuel _ hfuel
      obtain ⟨fuel, rfl⟩ : ∃ n, fuel = n + 1 := ⟨fuel - 1, by simp at hfuel; omega⟩
      rfl
  | cons x xs =>
      obtain ⟨before, sep, after, hbefore, hsep, hafter, htext⟩ :=
        toList_bracket s level "[" "]" rfl rfl (t x) (xs.map t)
      obtain ⟨c, hc, -, hclose⟩ := (hxs x List.mem_cons_self).begins
      rw [List.map_cons, htext, List.map_map]
      refine ⟨⟨'[', rfl, by decide, by decide⟩, ?_⟩
      intro rest fuel hrest hfuel
      simp only [List.length_cons, List.length_append] at hfuel
      obtain ⟨fuel, rfl⟩ : ∃ n, fuel = n + 1 := ⟨fuel - 1, by omega⟩
      simp only [List.cons_append, List.nil_append, List.append_assoc]
      have hskip := (hxs x List.mem_cons_self).skipBlanks hbefore
      refine readValue_list (c := c) ?_ hclose ?_
      · rw [hskip, List.head?_append, hc]
        rfl
      · rw [hskip]
        refine readItems_others (t := fun x => (t x).toList) hsep hafter rest xs x hxs ?_
        rw [List.length_append]
        change _ + (others sep (xs.map (String.toList ∘ t))).length < _
        omega

/-- The text of a member with a name. -/
def memberChars (ascii : Bool) (n : String) (t : List Char) : List Char :=
  (Text.escaped ascii n).toList ++ (':' :: ' ' :: t)

private theorem memberChars_eq (ascii : Bool) (n : String) (t : List Char) :
    ∃ tail, memberChars ascii n t = '\x22' :: tail :=
  ⟨_, by rw [memberChars, toList_escaped, List.cons_append]⟩

private theorem readMembers_member (ascii : Bool) (n : String) (entries : Entries)
    {t behind : List Char} (ht : Writes t v) (hbehind : Text.EndsNumber behind)
    (hfuel : (memberChars ascii n t).length ≤ fuel) :
    readMembers (fuel + 1) entries (memberChars ascii n t ++ behind) =
      match Json.skipBlanks behind with
      | '\x7d' :: rest => .ok (Entries.insert entries (.text n) v, rest)
      | ',' :: rest => readMembers fuel (Entries.insert entries (.text n) v) (Json.skipBlanks rest)
      | _ => .error .malformed := by
  have hskip : Json.skipBlanks (' ' :: (t ++ behind)) = t ++ behind :=
    ht.skipBlanks (show IsGap [' '] by simp [IsGap, isJsonBlank]) behind
  have htext : memberChars ascii n t ++ behind = '\x22' ::
      (n.toList.flatMap (Text.escapedChar ascii) ++ '\x22' :: (':' :: ' ' :: (t ++ behind))) := by
    simp [memberChars, toList_escaped]
  have hvalue : t.length ≤ fuel := by
    simp only [memberChars, List.length_append, List.length_cons] at hfuel
    omega
  rw [htext, readMembers, textBody_flatMap]
  change (readValue fuel (Json.skipBlanks (' ' :: (t ++ behind))) >>= _) = _
  rw [hskip, ht.reads hbehind hvalue]
  rfl

section

variable {α : Type} {ascii : Bool} {name : α → String} {t : α → List Char} {f : α → Value}
variable {sep after : List Char}

private theorem readMembers_others (hsep : IsGap sep) (hafter : IsGap after) (rest : List Char)
    (xs : List α) (x : α) (hxs : ∀ y ∈ x :: xs, Writes (t y) (f y)) (entries : Entries)
    (hnames : (Entries.names entries ++ (x :: xs).map name).Nodup) {fuel : Nat}
    (hfuel : (memberChars ascii (name x) (t x) ++
      others sep (xs.map fun y => memberChars ascii (name y) (t y))).length < fuel) :
    readMembers fuel entries (memberChars ascii (name x) (t x) ++
        (others sep (xs.map fun y => memberChars ascii (name y) (t y)) ++
          (after ++ '\x7d' :: rest))) =
      .ok (entries ++ (x :: xs).map fun y => (.text (name y), f y), rest) := by
  induction xs generalizing x entries fuel with
  | nil =>
      obtain ⟨fuel, rfl⟩ : ∃ n, fuel = n + 1 := ⟨fuel - 1, by omega⟩
      have hnew : name x ∉ Entries.names entries := fun hx =>
        List.disjoint_of_nodup_append hnames hx (by simp)
      rw [readMembers_member ascii (name x) entries (hxs x List.mem_cons_self)
        (endsNumber_others _ _ hafter (.inr rfl) [] rest)
        (by rw [List.length_append] at hfuel; omega), Entries.insert_of_notMem hnew]
      rw [others, List.map_nil, List.flatMap_nil, List.nil_append,
        skipBlanks_gap hafter (by decide)]
      rfl
  | cons y ys ih =>
      obtain ⟨fuel, rfl⟩ : ∃ n, fuel = n + 1 := ⟨fuel - 1, by omega⟩
      have hnew : name x ∉ Entries.names entries := fun hx =>
        List.disjoint_of_nodup_append hnames hx (by simp)
      rw [← List.append_nil (others _ _),
        others_cons (t := fun y => memberChars ascii (name y) (t y)), List.append_nil] at hfuel
      simp only [List.length_append, List.length_cons] at hfuel
      rw [readMembers_member ascii (name x) entries (hxs x List.mem_cons_self)
        (endsNumber_others _ _ hafter (.inr rfl) (y :: ys) rest) (by omega),
        Entries.insert_of_notMem hnew,
        others_cons (t := fun y => memberChars ascii (name y) (t y))]
      obtain ⟨tail, htail⟩ := memberChars_eq ascii (name y) (t y)
      have hquote : (memberChars ascii (name y) (t y)).head? = some '\x22' := by
        rw [htail]
        rfl
      have hskip := skipBlanks_of_head? hquote (by decide) hsep
      change readMembers fuel _
        (Json.skipBlanks (sep ++ (memberChars ascii (name y) (t y) ++ _))) = _
      rw [hskip, ih y (fun z hz => hxs z (List.mem_cons_of_mem _ hz)), List.append_assoc]
      · rfl
      · simpa [Entries.names_cons_text, List.append_assoc] using hnames
      · rw [List.length_append]
        omega

end

private theorem readValue_map {cs : List Char} {es : Entries}
    (hcs : (Json.skipBlanks cs).head? = some '\x22')
    (hes : readMembers fuel [] (Json.skipBlanks cs) = .ok (es, rest)) :
    readValue (fuel + 1) ('\x7b' :: cs) = .ok (.map es, rest) := by
  obtain ⟨tail, htail⟩ := List.head?_eq_some_iff.1 hcs
  rw [htail] at hes
  unfold readValue
  simp only [htail]
  change (readMembers fuel [] ('\x22' :: tail) >>= _) = _
  rw [hes]
  rfl

/-- A mapping whose members' texts write their values is written by its members between braces. -/
theorem writes_map {α : Type} (xs : List α) {ascii : Bool} {name : α → String}
    {t : α → String} {f : α → Value} (hxs : ∀ x ∈ xs, Writes (t x).toList (f x))
    (hnames : (xs.map name).Nodup) :
    Writes (s.bracket level "\x7b" "\x7d"
      (xs.map fun x => Text.escaped ascii (name x) ++ ": " ++ t x)).toList
      (.map (xs.map fun x => (.text (name x), f x))) := by
  cases xs with
  | nil =>
      have htext : (s.bracket level "\x7b" "\x7d" (([] : List α).map fun x =>
          Text.escaped ascii (name x) ++ ": " ++ t x)).toList = ['\x7b', '\x7d'] := by
        simp [Style.bracket]
      rw [htext]
      refine ⟨⟨'\x7b', rfl, by decide, by decide⟩, ?_⟩
      intro rest fuel _ hfuel
      obtain ⟨fuel, rfl⟩ : ∃ n, fuel = n + 1 := ⟨fuel - 1, by simp at hfuel; omega⟩
      rfl
  | cons x xs =>
      obtain ⟨before, sep, after, hbefore, hsep, hafter, htext⟩ :=
        toList_bracket s level "\x7b" "\x7d" rfl rfl
          (Text.escaped ascii (name x) ++ ": " ++ t x)
          (xs.map fun x => Text.escaped ascii (name x) ++ ": " ++ t x)
      have hmember : ∀ y, (Text.escaped ascii (name y) ++ ": " ++ t y).toList =
          memberChars ascii (name y) (t y).toList := fun y => by simp [memberChars]
      rw [List.map_cons, htext, List.map_map]
      simp only [Function.comp_def, hmember]
      refine ⟨⟨'\x7b', rfl, by decide, by decide⟩, ?_⟩
      intro rest fuel hrest hfuel
      simp only [List.length_cons, List.length_append] at hfuel
      obtain ⟨fuel, rfl⟩ : ∃ n, fuel = n + 1 := ⟨fuel - 1, by omega⟩
      simp only [List.cons_append, List.nil_append, List.append_assoc]
      obtain ⟨tail, htail⟩ := memberChars_eq ascii (name x) (t x).toList
      have hquote : (memberChars ascii (name x) (t x).toList).head? = some '\x22' := by
        rw [htail]
        rfl
      have hskip := skipBlanks_of_head? hquote (by decide) hbefore
      refine readValue_map ?_ ?_
      · rw [hskip, htail]
        rfl
      · rw [hskip]
        refine readMembers_others (t := fun x => (t x).toList) hsep hafter rest xs x hxs [] ?_ ?_
        · exact hnames
        · rw [List.length_append]
          omega

/-! ### Whole values -/

/-- The text of a value, if it has one. -/
private def textAt (s : Style) (level : Nat) (v : Value) : String :=
  (writeAt s level v).toOption.getD ""

private theorem textAt_eq {text : String} (h : writeAt s level v = .ok text) :
    textAt s level v = text := by
  rw [textAt, h]
  rfl

private theorem writeItems_eq_ok {xs : List Value} {texts : List String}
    (h : writeItems s level xs = .ok texts) :
    texts = xs.map (textAt s level) ∧ ∀ x ∈ xs, writeAt s level x = .ok (textAt s level x) := by
  induction xs generalizing texts with
  | nil =>
      injection h with h
      exact ⟨h.symm, by simp⟩
  | cons x xs ih =>
      rw [writeItems] at h
      obtain ⟨text, htext, h⟩ := Result.bind_eq_ok.1 h
      obtain ⟨rest, hrest, h⟩ := Result.bind_eq_ok.1 h
      injection h with h
      obtain ⟨rfl, hxs⟩ := ih hrest
      rw [List.map_cons, List.forall_mem_cons, textAt_eq htext]
      exact ⟨h.symm, htext, hxs⟩

/-- The text that is an entry's key. -/
def nameOf (e : Value × Value) : String := e.1.asText?.getD ""

theorem text_nameOf {e : Value × Value} (he : ∃ n, e.1 = .text n) : .text (nameOf e) = e.1 := by
  obtain ⟨n, hn⟩ := he
  rw [nameOf, hn]
  rfl

private theorem writeMembers_eq_ok {es : Entries} (keys : ∀ e ∈ es, ∃ n, e.1 = .text n)
    {members : List Member} (h : writeMembers s level es = .ok members) :
    members = es.map (fun e =>
        (e.1, Text.escaped s.ascii (nameOf e) ++ ": " ++ textAt s level e.2)) ∧
      ∀ e ∈ es, writeAt s level e.2 = .ok (textAt s level e.2) := by
  induction es generalizing members with
  | nil =>
      injection h with h
      exact ⟨h.symm, by simp⟩
  | cons e es ih =>
      obtain ⟨k, v⟩ := e
      obtain ⟨n, rfl⟩ : ∃ n, k = .text n := keys _ List.mem_cons_self
      rw [writeMembers] at h
      obtain ⟨key, hkey, h⟩ := Result.bind_eq_ok.1 h
      obtain ⟨text, htext, h⟩ := Result.bind_eq_ok.1 h
      obtain ⟨rest, hrest, h⟩ := Result.bind_eq_ok.1 h
      injection hkey with hkey
      injection h with h
      obtain ⟨rfl, hes⟩ := ih (fun e he => keys e (List.mem_cons_of_mem _ he)) hrest
      rw [List.map_cons, List.forall_mem_cons, textAt_eq htext, ← h, ← hkey]
      exact ⟨rfl, htext, hes⟩

/-- Members with texts as keys are arranged in the order of their entries. -/
private theorem arrange_of_text {es : Entries} (keys : ∀ e ∈ es, ∃ n, e.1 = .text n)
    (t : Value × Value → String) :
    arrange s (es.map fun e => (e.1, t e)) = .ok ((inOrder s.sorted es).map t) := by
  have hsort : (es.mergeSort fun a b => Value.keyLe a.1 b.1).map (fun e => (e.1, t e)) =
      (es.map fun e => (e.1, t e)).mergeSort fun a b => Value.keyLe a.1 b.1 :=
    List.map_mergeSort fun _ _ _ _ => rfl
  have hordered : Value.areOrdered ((es.map fun e => (e.1, t e)).map (·.1)) = true := by
    rw [List.map_map]
    exact areOrdered_of_text keys
  unfold arrange inOrder
  rw [if_pos hordered]
  split
  · rw [← hsort, List.map_map]
    rfl
  · rw [List.map_map]
    rfl

private theorem writes_of_scalar (hv : v.isScalar = true) {text : String}
    (h : writeAt s level v = .ok text) : Writes text.toList (image s.sorted v) := by
  cases v with
  | null =>
      injection h with h
      exact h ▸ writes_word (w := "null") (by simp [words])
  | bool b =>
      injection h with h
      rw [← h]
      cases b
      · exact writes_word (w := "false") (by simp [words])
      · exact writes_word (w := "true") (by simp [words])
  | int n => exact writes_integer h
  | float x =>
      injection h with h
      exact h ▸ writes_float x
  | text t =>
      injection h with h
      exact h ▸ writes_text s.ascii t
  | list | tuple | set | map => simp [Value.isScalar] at hv
  | date | moment | bytes => cases h

theorem names_eq_map_nameOf {es : Entries} (keys : ∀ e ∈ es, ∃ n, e.1 = .text n) :
    Entries.names es = es.map nameOf := by
  rw [Entries.names, ← List.filterMap_eq_map]
  refine List.filterMap_congr fun e he => ?_
  rw [← text_nameOf (keys e he)]
  rfl

/-- A mapping is written by its entries in the order of the style. -/
private theorem writes_entries {es : Entries} (names : (Entries.names es).Nodup)
    (keys : ∀ e ∈ es, ∃ n, e.1 = .text n) {t : Value × Value → String}
    (hes : ∀ e ∈ es, Writes (t e).toList (image s.sorted e.2)) :
    Writes (s.bracket level "\x7b" "\x7d" ((inOrder s.sorted es).map fun e =>
      Text.escaped s.ascii (nameOf e) ++ ": " ++ t e)).toList (image s.sorted (.map es)) := by
  have hperm := inOrder_perm s.sorted es
  have hkeys : ∀ e ∈ inOrder s.sorted es, ∃ n, e.1 = .text n := fun e he =>
    keys e (hperm.mem_iff.1 he)
  have hnames : ((inOrder s.sorted es).map nameOf).Nodup := by
    rw [← names_eq_map_nameOf hkeys]
    exact (Entries.names_perm hperm).nodup_iff.2 names
  have himages : (inOrder s.sorted es).map (fun e => (e.1, image s.sorted e.2)) =
      (inOrder s.sorted es).map fun e => (.text (nameOf e), image s.sorted e.2) :=
    List.map_congr_left fun e he => by rw [text_nameOf (hkeys e he)]
  rw [image_map, ← inOrder_map fun e => image s.sorted e.2, himages]
  exact writes_map (inOrder s.sorted es) (fun e he => hes e (hperm.mem_iff.1 he)) hnames

/-- The text of a value writes its image. -/
theorem writes_of_writeAt (hv : v.IsIn .textKeyed) {text : String}
    (h : writeAt s level v = .ok text) : Writes text.toList (image s.sorted v) := by
  induction hv generalizing level text with
  | scalar hv _ => exact writes_of_scalar hv h
  | @list xs _ ih =>
      rw [writeAt] at h
      obtain ⟨texts, htexts, h⟩ := Result.bind_eq_ok.1 h
      obtain ⟨rfl, ht⟩ := writeItems_eq_ok htexts
      injection h with h
      rw [← h, image_list]
      exact writes_list xs fun x hx => ih x hx (ht x hx)
  | @tuple xs _ _ ih =>
      rw [writeAt] at h
      obtain ⟨texts, htexts, h⟩ := Result.bind_eq_ok.1 h
      obtain ⟨rfl, ht⟩ := writeItems_eq_ok htexts
      injection h with h
      rw [← h, image_tuple]
      exact writes_list xs fun x hx => ih x hx (ht x hx)
  | set => cases h
  | @map es names keys _ ih =>
      rw [writeAt] at h
      obtain ⟨members, hmembers, h⟩ := Result.bind_eq_ok.1 h
      obtain ⟨lines, hlines, h⟩ := Result.bind_eq_ok.1 h
      obtain ⟨rfl, ht⟩ := writeMembers_eq_ok keys hmembers
      obtain rfl := Except.ok.inj ((arrange_of_text keys _).symm.trans hlines)
      injection h with h
      rw [← h]
      exact writes_entries names keys fun e he => ih e he (ht e he)

/-- What is written is read back as its image. -/
theorem read_write (hv : v.IsIn .textKeyed) {text : String} (h : write s v = .ok text) :
    read text = .ok (image s.sorted v) := by
  have hwrites := writes_of_writeAt hv h
  have hskip : Json.skipBlanks text.toList = text.toList := by
    simpa using hwrites.skipBlanks isGap_nil []
  have hread := hwrites.reads Text.endsNumber_nil (Nat.le_succ _)
  rw [List.append_nil] at hread
  rw [read, hskip]
  change (readValue (text.toList.length + 1) text.toList >>= _) = _
  rw [hread]
  rfl

theorem parse_write (hv : v.IsIn .textKeyed) {text : String} (h : write s v = .ok text) :
    parse text = .ok (image s.sorted v) := by
  rw [parse, read_write hv h]
  rfl

/-! ### What can be written -/

private theorem integerText_isOk {n : Int} :
    (∃ text, integerText n = .ok text) ↔ (integerText? n).isSome = true := by
  unfold integerText
  cases integerText? n with
  | none => simp
  | some t => exact ⟨fun _ => rfl, fun _ => ⟨t, rfl⟩⟩

private theorem writeItems_of_forall {xs : List Value} {t : Value → String}
    (h : ∀ x ∈ xs, writeAt s level x = .ok (t x)) : writeItems s level xs = .ok (xs.map t) := by
  induction xs with
  | nil => rfl
  | cons x xs ih =>
      obtain ⟨hx, hxs⟩ := List.forall_mem_cons.1 h
      rw [writeItems, hx, ih hxs]
      rfl

private theorem writeMembers_of_forall {es : Entries} (keys : ∀ e ∈ es, ∃ n, e.1 = .text n)
    {t : Value × Value → String} (h : ∀ e ∈ es, writeAt s level e.2 = .ok (t e)) :
    writeMembers s level es =
      .ok (es.map fun e => (e.1, Text.escaped s.ascii (nameOf e) ++ ": " ++ t e)) := by
  induction es with
  | nil => rfl
  | cons e es ih =>
      obtain ⟨k, v⟩ := e
      obtain ⟨n, rfl⟩ : ∃ n, k = .text n := keys _ List.mem_cons_self
      obtain ⟨hv, hes⟩ := List.forall_mem_cons.1 h
      rw [writeMembers, hv, ih (fun e he => keys e (List.mem_cons_of_mem _ he)) hes]
      rfl

private theorem writeItems_isOk {xs : List Value} :
    (∃ ts, writeItems s level xs = .ok ts) ↔ ∀ x ∈ xs, ∃ t, writeAt s level x = .ok t := by
  refine ⟨fun ⟨ts, hts⟩ x hx => ⟨_, (writeItems_eq_ok hts).2 x hx⟩, fun h => ?_⟩
  refine ⟨_, writeItems_of_forall (t := textAt s level) fun x hx => ?_⟩
  obtain ⟨t, ht⟩ := h x hx
  rw [textAt_eq ht, ht]

private theorem writeMembers_isOk {es : Entries} (keys : ∀ e ∈ es, ∃ n, e.1 = .text n) :
    (∃ lines, (writeMembers s level es >>= arrange s) = .ok lines) ↔
      ∀ e ∈ es, ∃ t, writeAt s level e.2 = .ok t := by
  refine ⟨fun ⟨lines, hlines⟩ e he => ?_, fun h => ?_⟩
  · obtain ⟨members, hmembers, -⟩ := Result.bind_eq_ok.1 hlines
    exact ⟨_, (writeMembers_eq_ok keys hmembers).2 e he⟩
  · have hes : ∀ e ∈ es, writeAt s level e.2 = .ok (textAt s level e.2) := fun e he => by
      obtain ⟨t, ht⟩ := h e he
      rw [textAt_eq ht, ht]
    rw [writeMembers_of_forall keys hes, Result.ok_bind]
    exact ⟨_, arrange_of_text keys _⟩

/-- Among values with texts as keys, those that can be written are the same in every style. -/
theorem writeAt_isOk (hv : v.IsIn .textKeyed) :
    (∃ text, writeAt s level v = .ok text) ↔ v.IsIn .writable := by
  have hbracket : ∀ {α : Type} {w : Except Failure α} {f : α → String},
      (∃ text, (do return f (← w)) = Except.ok (ε := Failure) text) ↔ ∃ a, w = .ok a := by
    intro α w f
    constructor
    · rintro ⟨_, h⟩
      obtain ⟨a, ha, -⟩ := Result.bind_eq_ok.1 h
      exact ⟨a, ha⟩
    · rintro ⟨a, rfl⟩
      exact ⟨f a, rfl⟩
  induction hv generalizing level with
  | @scalar v hv node =>
      have hscalar : v.IsIn .writable ↔ v.IsWritable :=
        ⟨fun h => h.node_of_scalar hv, fun h => .scalar hv h⟩
      rw [hscalar]
      cases v with
      | int n =>
          simp only [writeAt, Value.IsWritable]
          exact integerText_isOk
      | list | tuple | set | map => simp [Value.isScalar] at hv
      | date | moment | bytes => simp [writeAt, Value.IsWritable]
      | _ => exact ⟨fun _ => trivial, fun _ => ⟨_, rfl⟩⟩
  | list _ ih =>
      rw [writeAt, hbracket, writeItems_isOk, IsIn.list_iff]
      exact forall₂_congr fun x hx => ih x hx
  | tuple _ _ ih =>
      rw [writeAt, hbracket, writeItems_isOk]
      exact ⟨fun h => .tuple trivial fun x hx => (ih x hx).1 (h x hx),
        fun h x hx => (ih x hx).2 (h.tuple_items x hx)⟩
  | set =>
      constructor
      · rintro ⟨_, h⟩
        cases h
      · intro h
        cases h with
        | scalar hv => simp [Value.isScalar] at hv
        | set node => exact node.elim
  | @map es names keys _ ih =>
      have hmap : (∃ text, writeAt s level (.map es) = .ok text) ↔
          ∃ lines, (writeMembers s (level + 1) es >>= arrange s) = .ok lines := by
        rw [writeAt, ← hbracket (f := s.bracket level "\x7b" "\x7d"), bind_assoc]
      rw [hmap, writeMembers_isOk keys, IsIn.map_iff]
      exact ⟨fun h => ⟨names, keys, fun e he => (ih e he).1 (h e he)⟩,
        fun h e he => (ih e he).2 (h.2.2 e he)⟩

theorem write_isOk (s : Style) (hv : v.IsIn .textKeyed) :
    (∃ text, write s v = .ok text) ↔ v.IsIn .writable := writeAt_isOk hv

theorem exists_write (s : Style) (hv : v.IsJson) : ∃ text, write s v = .ok text :=
  (write_isOk s hv.textKeyed).2 hv.writable

/-! ### What is read is written as before -/

/-- A value has its text, wherever it stands, in common with its image. -/
private def SharesText (s : Style) (v : Value) : Prop :=
  ∀ (level : Nat) (text : String), writeAt s level v = .ok text →
    writeAt s level (image s.sorted v) = .ok text

private theorem SharesText.textAt_image (hv : SharesText s v)
    (h : writeAt s level v = .ok (textAt s level v)) :
    writeAt s level (image s.sorted v) = .ok (textAt s level (image s.sorted v)) ∧
      textAt s level (image s.sorted v) = textAt s level v := by
  have himage := hv _ _ h
  rw [textAt_eq himage]
  exact ⟨himage, rfl⟩

/-- The items of a list or tuple become those of a list. -/
private theorem writeItems_image {xs : List Value} {texts : List String}
    (hxs : ∀ x ∈ xs, SharesText s x) (h : writeItems s level xs = .ok texts) :
    writeItems s level (xs.map (image s.sorted)) = .ok texts := by
  obtain ⟨rfl, ht⟩ := writeItems_eq_ok h
  have himages : ∀ y ∈ xs.map (image s.sorted), writeAt s level y = .ok (textAt s level y) :=
    List.forall_mem_map.2 fun x hx => ((hxs x hx).textAt_image (ht x hx)).1
  rw [writeItems_of_forall himages, List.map_map]
  exact congrArg Except.ok
    (List.map_congr_left fun x hx => ((hxs x hx).textAt_image (ht x hx)).2)

/-- Entries in their order are not arranged anew. -/
private theorem inOrder_images {es : Entries} (keys : ∀ e ∈ es, ∃ n, e.1 = .text n) :
    inOrder s.sorted (inOrder s.sorted (es.map fun e => (e.1, image s.sorted e.2))) =
      (inOrder s.sorted es).map fun e => (e.1, image s.sorted e.2) := by
  rw [inOrder_map fun e => image s.sorted e.2]
  cases s.sorted with
  | false => rfl
  | true => exact inOrder_inOrder (List.forall_mem_map.2 keys)

private theorem sharesText_map {es : Entries} (keys : ∀ e ∈ es, ∃ n, e.1 = .text n)
    (hes : ∀ e ∈ es, SharesText s e.2) : SharesText s (.map es) := by
  intro level text h
  rw [writeAt] at h
  obtain ⟨members, hmembers, h⟩ := Result.bind_eq_ok.1 h
  obtain ⟨rfl, ht⟩ := writeMembers_eq_ok keys hmembers
  rw [arrange_of_text keys] at h
  have himages : ∀ {P : Value × Value → Prop}, (∀ e ∈ es, P (e.1, image s.sorted e.2)) →
      ∀ e ∈ inOrder s.sorted (es.map fun e => (e.1, image s.sorted e.2)), P e :=
    fun hP e he => by
      obtain ⟨d, hd, rfl⟩ := List.mem_map.1 ((image_map_perm s.sorted es).mem_iff.1 he)
      exact hP d hd
  have hvalues := himages (P := fun e => writeAt s (level + 1) e.2 =
    .ok (textAt s (level + 1) e.2)) fun e he => ((hes e he).textAt_image (ht e he)).1
  have hkeys := himages (P := fun e => ∃ n, e.1 = .text n) keys
  rw [image_map, writeAt, writeMembers_of_forall hkeys hvalues, Result.ok_bind,
    arrange_of_text hkeys, inOrder_images keys, List.map_map, ← h]
  refine congrArg (fun lines => Except.ok (s.bracket level "\x7b" "\x7d" lines)) ?_
  refine List.map_congr_left fun e he => ?_
  have hmem := (inOrder_perm s.sorted es).mem_iff.1 he
  rw [Function.comp_apply, ((hes e hmem).textAt_image (ht e hmem)).2]
  rfl

/-- A value that has a text shares it with its image. -/
theorem writeAt_image (hv : v.IsIn .textKeyed) {text : String} (h : writeAt s level v = .ok text) :
    writeAt s level (image s.sorted v) = .ok text := by
  induction hv generalizing level text with
  | @scalar v hv _ =>
      cases v with
      | float x => cases x <;> exact h
      | list | tuple | set | map => simp [Value.isScalar] at hv
      | _ => exact h
  | list _ ih =>
      rw [writeAt] at h
      obtain ⟨texts, htexts, h⟩ := Result.bind_eq_ok.1 h
      rw [image_list, writeAt, writeItems_image (fun x hx _ _ => ih x hx) htexts]
      exact h
  | tuple _ _ ih =>
      rw [writeAt] at h
      obtain ⟨texts, htexts, h⟩ := Result.bind_eq_ok.1 h
      rw [image_tuple, writeAt, writeItems_image (fun x hx _ _ => ih x hx) htexts]
      exact h
  | set => cases h
  | map _ keys _ ih => exact sharesText_map keys (fun e he _ _ => ih e he) _ _ h

end Json

end FormDesigner
