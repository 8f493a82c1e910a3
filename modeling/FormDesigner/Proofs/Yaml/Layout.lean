import FormDesigner.Proofs.Result
import FormDesigner.Proofs.Value.Entries
import FormDesigner.Proofs.Yaml.Spelling

/-!
# How values are laid out

In block style every entry and every item begins a line, indented by the level of its collection;
the first one of a collection that is an item stands on the line of the item's hyphen. A list that
is the value of an entry is not indented deeper than the entry. `Lays` says what is written of a
value after the colon or the hyphen in front of it, together with the tokens that it consists of.
-/

namespace FormDesigner

namespace Yaml

/-! ### Names -/

/-- A key that can be written plainly on the line of its value: a short word that means nothing but
itself. -/
structure IsName (k : String) : Prop where
  letters : ∀ c ∈ k.toList, c.isAlpha = true
  filled : k ≠ ""
  size : k.length ≤ 100
  tag : plainTag true k = .text

theorem ne_of_isAlpha {c d : Char} (h : c.isAlpha = true) (hd : d.isAlpha = false) : c ≠ d := by
  rintro rfl
  simp [h] at hd

theorem isQuiet_of_isAlpha {c : Char} (h : c.isAlpha = true) : isQuiet c = true := by
  simp [isQuiet, Char.isAlphanum, h]

theorem isCalm_of_letters {cs : List Char} (hne : cs ≠ []) (h : ∀ c ∈ cs, c.isAlpha = true) :
    IsCalm cs := by
  obtain ⟨c, rest, rfl⟩ := List.exists_cons_of_ne_nil hne
  have hfirst : c.isAlphanum = true := by simp [Char.isAlphanum, h c (.head _)]
  exact ⟨fun d hd => isQuiet_of_isAlpha (h d hd), c, rest, rfl, .inl hfirst⟩

namespace IsName

variable {k : String}

theorem toList_ne_nil (h : IsName k) : k.toList ≠ [] := fun hnil =>
  h.filled (String.toList_eq_nil_iff.1 hnil)

theorem isQuiet (h : IsName k) : ∀ c ∈ k.toList, isQuiet c = true := fun c hc =>
  isQuiet_of_isAlpha (h.letters c hc)

theorem clean (h : IsName k) : ∀ c ∈ k.toList, IsClean c := fun c hc =>
  isClean_of_ascii (by have := toNat_of_isQuiet (h.isQuiet c hc); omega)

theorem isPlain (h : IsName k) : IsPlain k.toList :=
  (isCalm_of_letters h.toList_ne_nil h.letters).isPlain

theorem multiline (h : IsName k) : (traits true k.toList).multiline = false := by
  have := h.isPlain.breaks
  cases hk : k.toList with
  | nil => rfl
  | cons c cs =>
      rw [hk] at this
      simpa [traits] using this

/-- A name is written plainly where it is a key. -/
theorem quoting (h : IsName k) :
    (Leaf.mk .text k false).quoting true ⟨false, true, true⟩ = .plain := by
  have hplain := (traits_plainInBlock h.toList_ne_nil).2 h.isPlain
  simp [Leaf.quoting, Leaf.readsBack, h.tag, hplain, h.multiline, h.filled]

theorem isShortKey (h : IsName k) : isShortKey true (.text k) = .ok true := by
  have hsize : (tagMark .text).length + k.length < longKey := by
    have htag : (tagMark .text).length = 5 := by decide
    have := h.size
    rw [htag, longKey]
    omega
  change Except.ok (decide ((tagMark .text).length + k.length < longKey) && !k.isEmpty
    && !(traits true k.toList).multiline) = .ok true
  simp [hsize, h.filled, h.multiline]

/-- The key is written as it is, where its line begins. -/
theorem put (h : IsName k) {s : Sheet} (hblank : s.blank = true) :
    ∃ t, putValue .block ⟨false, true, true⟩ s (.text k) = .ok t ∧ s.Adds k.toList t := by
  have hpieces : ∀ {cs : List Char}, cs ≠ [] → (∀ c ∈ cs, c.isAlpha = true) →
      Yaml.piecesOf cs = [.word cs] := by
    intro cs hne hcs
    induction cs with
    | nil => exact absurd rfl hne
    | cons c cs ih =>
        obtain ⟨hc, hcs⟩ := List.forall_mem_cons.1 hcs
        have hgap := isGapChar_of_isQuiet (isQuiet_of_isAlpha hc)
        simp only [isGapChar, Bool.or_eq_false_iff] at hgap
        have hquote : (c == '\'') = false := beq_eq_false_iff_ne.2 (ne_of_isAlpha hc rfl)
        cases cs with
        | nil => simp [Yaml.piecesOf, addToPieces, hgap.1, hgap.2, hquote]
        | cons d cs =>
            rw [Yaml.piecesOf, List.foldr_cons, ← Yaml.piecesOf, ih (by simp) hcs]
            simp [addToPieces, hgap.1, hgap.2, hquote]
  refine ⟨_, rfl, ?_⟩
  unfold Leaf.put
  rw [show Style.block.unicode = true from rfl, h.quoting]
  have hreads : (Leaf.mk .text k false).readsBack = true := by simp [Leaf.readsBack, h.tag]
  have hne : k.toList.isEmpty = false := by simpa [List.isEmpty_eq_false_iff] using h.filled
  have hdeeper : (s.deeper true true).blank = true := hblank
  simp only [hreads, Bool.not_true, Bool.false_eq_true, if_false, if_true, hne, hdeeper,
    hpieces h.toList_ne_nil h.letters, putPlain]
  refine ⟨?_, rfl⟩
  simp [Sheet.add, Sheet.settle, Sheet.deeper]

end IsName

/-! ### Layouts -/

mutual

/-- What is written of a value after the hyphen of an item that stands in column `n`, or after the
colon of an entry whose key does. -/
inductive Lays : (entry : Bool) → (n : Nat) → Value → List Char → List Token → Prop
  | leaf {entry : Bool} {n : Nat} {v : Value} {l : Leaf} {cs : List Char}
      (leaf : leaf? v = .ok (some l)) (simple : l.IsSimple)
      (survives : l.Survives (n + levelIndent))
      (spelled : Spells true (n + levelIndent) l.text.toList l.quotes cs) :
      Lays entry n v (' ' :: cs) [.scalar l.text (l.quotes = .plain)]
  | emptyList {entry : Bool} {n : Nat} :
      Lays entry n (.list []) [' ', '[', ']'] [.flowSequence, .flowSequenceEnd]
  | emptyMap {entry : Bool} {n : Nat} :
      Lays entry n (.map []) [' ', '\x7b', '\x7d'] [.flowMapping, .flowMappingEnd]
  | listOfEntry {n : Nat} {xs : List Value} {cs : List Char} {ts : List Token}
      (items : LaysItems n xs cs ts) : Lays true n (.list xs) ('\n' :: indentation n ++ cs) ts
  | listOfItem {n : Nat} {xs : List Value} {cs : List Char} {ts : List Token}
      (items : LaysItems (n + levelIndent) xs cs ts) :
      Lays false n (.list xs) (' ' :: cs) (.blockSequence :: ts ++ [.blockEnd])
  | mapOfEntry {n : Nat} {es : Entries} {cs : List Char} {ts : List Token}
      (entries : LaysEntries (n + levelIndent) es cs ts) :
      Lays true n (.map es) ('\n' :: indentation (n + levelIndent) ++ cs)
        (.blockMapping :: ts ++ [.blockEnd])
  | mapOfItem {n : Nat} {es : Entries} {cs : List Char} {ts : List Token}
      (entries : LaysEntries (n + levelIndent) es cs ts) :
      Lays false n (.map es) (' ' :: cs) (.blockMapping :: ts ++ [.blockEnd])

/-- The items of a list, from the hyphen of the first one in column `n` on. -/
inductive LaysItems : (n : Nat) → List Value → List Char → List Token → Prop
  | one {n : Nat} {x : Value} {cs : List Char} {ts : List Token} (item : Lays false n x cs ts) :
      LaysItems n [x] ('-' :: cs) (.blockEntry :: ts)
  | more {n : Nat} {x : Value} {xs : List Value} {cs ds : List Char} {ts us : List Token}
      (item : Lays false n x cs ts) (rest : LaysItems n xs ds us) :
      LaysItems n (x :: xs) ('-' :: cs ++ '\n' :: indentation n ++ ds) (.blockEntry :: ts ++ us)

/-- The entries of a mapping, from the first key in column `n` on. -/
inductive LaysEntries : (n : Nat) → Entries → List Char → List Token → Prop
  | one {n : Nat} {k : String} {v : Value} {cs : List Char} {ts : List Token} (name : IsName k)
      (value : Lays true n v cs ts) :
      LaysEntries n [(.text k, v)] (k.toList ++ ':' :: cs) (.key :: .scalar k true :: .value :: ts)
  | more {n : Nat} {k : String} {v : Value} {es : Entries} {cs ds : List Char} {ts us : List Token}
      (name : IsName k) (value : Lays true n v cs ts) (rest : LaysEntries n es ds us) :
      LaysEntries n ((.text k, v) :: es) (k.toList ++ ':' :: cs ++ '\n' :: indentation n ++ ds)
        (.key :: .scalar k true :: .value :: ts ++ us)

end

/-- A value whose texts survive being written where it stands, and whose keys are names. -/
inductive Legible : (entry : Bool) → (n : Nat) → Value → Prop
  | leaf {entry : Bool} {n : Nat} {v : Value} {l : Leaf} (leaf : leaf? v = .ok (some l))
      (simple : l.IsSimple) (survives : l.Survives (n + levelIndent)) : Legible entry n v
  | list {entry : Bool} {n : Nat} {xs : List Value}
      (items : ∀ x ∈ xs, Legible false (if entry then n else n + levelIndent) x) :
      Legible entry n (.list xs)
  | map {entry : Bool} {n : Nat} {es : Entries} (names : ∀ e ∈ es, ∃ k, e.1 = .text k ∧ IsName k)
      (values : ∀ e ∈ es, Legible true (n + levelIndent) e.2) : Legible entry n (.map es)

/-! ### Writing -/

/-- Nothing but indentation and hyphens stands before column `n` of the line. -/
structure Sheet.StandsAt (s : Sheet) (n : Nat) : Prop where
  column : s.column = n
  blank : s.blank = true
  fresh : s.fresh = true
  indent : s.indent = some n

/-- A value has been written where its parent stands in column `n`. -/
def Written (entry : Bool) (n : Nat) (v : Value) : Prop :=
  ∀ s : Sheet, s.indent = some n → s.blank = false →
    (if entry then s.fresh = false else s.fresh = true ∧ s.column = n + 1) →
      ∃ cs ts t, putValue .block ⟨false, entry, false⟩ s v = .ok t ∧ Lays entry n v cs ts ∧
        s.Adds cs t ∧ t.Busy

variable {n : Nat}

theorem Sheet.Busy.newLine {s : Sheet} (hs : s.Busy) (hn : s.indent = some n) :
    s.Adds ('\n' :: indentation n) s.newLine ∧ s.newLine.StandsAt n := by
  have hgetD : s.indent.getD 0 = n := by rw [hn]; rfl
  refine ⟨Sheet.newLine_adds hgetD (.inl hs.fresh), ?_⟩
  rw [Sheet.newLine_of_full hgetD (.inl hs.fresh)]
  exact ⟨rfl, rfl, rfl, hn⟩

/-- After a hyphen, the next level begins after a blank. -/
theorem Sheet.newLine_after_hyphen {s : Sheet} (hfresh : s.fresh = true)
    (hcolumn : s.column = n + 1) (hn : s.indent = some (n + levelIndent)) :
    s.Adds [' '] s.newLine ∧ s.newLine.StandsAt (n + levelIndent) := by
  have hgetD : s.indent.getD 0 = n + levelIndent := by rw [hn]; rfl
  have hlt : s.column < n + levelIndent := by rw [hcolumn, levelIndent]; omega
  have hone : n + levelIndent - s.column = 1 := by rw [hcolumn, levelIndent]; omega
  rw [Sheet.newLine_of_fresh hgetD hfresh (.inl hlt), hone]
  exact ⟨⟨by simp [indentation], rfl⟩, rfl, rfl, hfresh, hn⟩

theorem putBlockItems_lays {xs : List Value} (hne : xs ≠ []) (hxs : ∀ x ∈ xs, Written false n x)
    {s : Sheet} {lead : List Char} (hline : s.Adds lead s.newLine) (hs : s.newLine.StandsAt n) :
    ∃ cs ts t, putBlockItems .block s xs = .ok t ∧ LaysItems n xs cs ts ∧ s.Adds (lead ++ cs) t ∧
      t.Busy := by
  induction xs generalizing s lead with
  | nil => exact absurd rfl hne
  | cons x xs ih =>
      obtain ⟨hx, hxs⟩ := List.forall_mem_cons.1 hxs
      have hhyphen : s.newLine.Adds ['-'] (s.newLine.mark "-" true false true) := by
        simpa [hs.blank] using s.newLine.mark_adds "-" true false true
      have hcolumn : (s.newLine.mark "-" true false true).column = n + 1 := by
        simp only [Sheet.mark, Sheet.add, hs.blank, hs.column, Bool.true_or, if_true]
        rfl
      obtain ⟨cs, ts, t, hput, hlays, hadds, hbusy⟩ := hx (s.newLine.mark "-" true false true)
        hs.indent rfl ⟨by simp [Sheet.mark, Sheet.add, hs.fresh], hcolumn⟩
      have hall := (hline.trans hhyphen).trans hadds
      cases xs with
      | nil =>
          refine ⟨_, _, t, ?_, .one hlays, by simpa using hall, hbusy⟩
          rw [putBlockItems, hput]
          rfl
      | cons y ys =>
          obtain ⟨hline', hs'⟩ := hbusy.newLine (hall.indent.trans
            (hline.indent.symm.trans hs.indent))
          obtain ⟨ds, us, u, hput', hlays', hadds', hbusy'⟩ := ih (by simp) hxs hline' hs'
          refine ⟨_, _, u, ?_, .more hlays hlays', by simpa using hall.trans hadds', hbusy'⟩
          rw [putBlockItems, hput]
          exact hput'

theorem putBlockEntries_cons {k : String} (hk : IsName k) {s u t : Sheet} {v : Value}
    (hkey : putValue .block ⟨false, true, true⟩ s.newLine (.text k) = .ok u)
    (hvalue : putValue .block ⟨false, true, false⟩ (u.mark ":" false false false) v = .ok t)
    (es : Entries) :
    putBlockEntries .block s ((.text k, v) :: es) = putBlockEntries .block t es := by
  have hshort : isShortKey Style.block.unicode (.text k) = .ok true := hk.isShortKey
  rw [putBlockEntries]
  simp only [hshort, hkey, Result.ok_bind, if_true]
  rw [pure_bind, hvalue]
  rfl

theorem putBlockEntries_lays {es : Entries} (hne : es ≠ [])
    (names : ∀ e ∈ es, ∃ k, e.1 = .text k ∧ IsName k) (hes : ∀ e ∈ es, Written true n e.2)
    {s : Sheet} {lead : List Char} (hline : s.Adds lead s.newLine) (hs : s.newLine.StandsAt n) :
    ∃ cs ts t, putBlockEntries .block s es = .ok t ∧ LaysEntries n es cs ts ∧
      s.Adds (lead ++ cs) t ∧ t.Busy := by
  induction es generalizing s lead with
  | nil => exact absurd rfl hne
  | cons e es ih =>
      obtain ⟨k, v⟩ := e
      obtain ⟨⟨k, rfl, hk⟩, hnames⟩ := List.forall_mem_cons.1 names
      obtain ⟨hv, hes⟩ := List.forall_mem_cons.1 hes
      obtain ⟨u, hkey, hname⟩ := hk.put hs.blank
      obtain ⟨hcolon, hcolonBusy⟩ := u.mark_close_adds ":"
      have hupto := (hline.trans hname).trans hcolon
      obtain ⟨cs, ts, t, hput, hlays, hadds, hbusy⟩ := hv (u.mark ":" false false false)
        (hupto.indent.trans (hline.indent.symm.trans hs.indent)) hcolonBusy.blank hcolonBusy.fresh
      have hall := hupto.trans hadds
      have hcons := putBlockEntries_cons hk hkey hput
      cases es with
      | nil => exact ⟨_, _, t, hcons [], .one hk hlays, by simpa using hall, hbusy⟩
      | cons d ds =>
          obtain ⟨hline', hs'⟩ := hbusy.newLine (hall.indent.trans
            (hline.indent.symm.trans hs.indent))
          obtain ⟨cs', us, w, hput', hlays', hadds', hbusy'⟩ := ih (by simp) hnames hes hline' hs'
          exact ⟨_, _, w, (hcons _).trans hput', .more hk hlays hlays',
            by simpa using hall.trans hadds', hbusy'⟩

/-- Brackets with nothing between them. -/
theorem inBrackets_empty {s : Sheet} (hblank : s.blank = false) (opening closing : String) :
    ∃ t, inBrackets s opening closing .ok = .ok t ∧
      s.Adds (' ' :: opening.toList ++ closing.toList) t ∧ t.Busy := by
  have hopen : s.Adds (' ' :: opening.toList) (s.mark opening true true false) := by
    simpa [hblank] using s.mark_adds opening true true false
  have hinner : s.Adds (' ' :: opening.toList)
      { (s.mark opening true true false).deeper true true with indent := s.indent } :=
    ⟨hopen.chars, rfl⟩
  obtain ⟨hclose, hbusy⟩ := Sheet.mark_close_adds
    { (s.mark opening true true false).deeper true true with indent := s.indent } closing
  exact ⟨_, rfl, hinner.trans hclose, hbusy⟩

/-- What is written on lines of its own adds the same text to what is around it. -/
theorem onLines_adds {s t : Sheet} {level : Bool} {cs : List Char}
    (body : Sheet → Except Failure Sheet) (hbody : body (s.deeper false level) = .ok t)
    (hadds : (s.deeper false level).Adds cs t) (hbusy : t.Busy) :
    ∃ u, onLines s level body = .ok u ∧ s.Adds cs u ∧ u.Busy := by
  refine ⟨{ t with indent := s.indent }, ?_, ⟨hadds.chars, rfl⟩, ⟨hbusy.blank, hbusy.fresh⟩⟩
  rw [onLines, hbody]
  rfl

theorem onLines_items {xs : List Value} (hne : xs ≠ []) (hxs : ∀ x ∈ xs, Written false n x)
    {s : Sheet} {level : Bool} {lead : List Char}
    (hline : (s.deeper false level).Adds lead (s.deeper false level).newLine ∧
      (s.deeper false level).newLine.StandsAt n) :
    ∃ cs ts u, onLines s level (fun s => putBlockItems .block s xs) = .ok u ∧
      LaysItems n xs cs ts ∧ s.Adds (lead ++ cs) u ∧ u.Busy := by
  obtain ⟨cs, ts, t, ht, hlays, hadds, hbusy⟩ := putBlockItems_lays hne hxs hline.1 hline.2
  obtain ⟨u, hu, hadds', hbusy'⟩ :=
    onLines_adds (fun s => putBlockItems .block s xs) ht hadds hbusy
  exact ⟨cs, ts, u, hu, hlays, hadds', hbusy'⟩

theorem onLines_entries {es : Entries} (hne : es ≠ [])
    (names : ∀ e ∈ es, ∃ k, e.1 = .text k ∧ IsName k) (hes : ∀ e ∈ es, Written true n e.2)
    {s : Sheet} {lead : List Char}
    (hline : (s.deeper false true).Adds lead (s.deeper false true).newLine ∧
      (s.deeper false true).newLine.StandsAt n) :
    ∃ cs ts u, onLines s true (fun s => putBlockEntries .block s es) = .ok u ∧
      LaysEntries n es cs ts ∧ s.Adds (lead ++ cs) u ∧ u.Busy := by
  obtain ⟨cs, ts, t, ht, hlays, hadds, hbusy⟩ := putBlockEntries_lays hne names hes hline.1 hline.2
  obtain ⟨u, hu, hadds', hbusy'⟩ :=
    onLines_adds (fun s => putBlockEntries .block s es) ht hadds hbusy
  exact ⟨cs, ts, u, hu, hlays, hadds', hbusy'⟩

theorem deeper_eq {s : Sheet} (hn : s.indent = some n) (level : Bool) :
    s.deeper false level = { s with indent := some (if level then n + levelIndent else n) } := by
  simp [Sheet.deeper, hn]

/-! The first entry or item of a collection stands on the next line, or after the hyphen that the
collection follows. -/

variable {entry : Bool}

theorem written_leaf {v : Value} {l : Leaf} (leaf : leaf? v = .ok (some l)) (simple : l.IsSimple)
    (survives : l.Survives (n + levelIndent)) : Written entry n v := by
  intro s hn hblank _
  have hdeeper : (s.deeper true true).indent.getD 0 = n + levelIndent := by
    simp [Sheet.deeper, hn]
  obtain ⟨cs, hspelled, hadds, hbusy⟩ := l.put_spells simple survives.narrow hdeeper entry
  rw [hblank] at hadds
  refine ⟨_, _, _, ?_, .leaf leaf simple survives hspelled, hadds, hbusy⟩
  cases v with
  | list | tuple | map => cases leaf
  | _ =>
      rw [putValue, leaf]
      · rfl
      all_goals simp

theorem written_emptyList : Written entry n (.list []) := by
  intro s _ hblank _
  obtain ⟨t, ht, hadds, hbusy⟩ := inBrackets_empty hblank "[" "]"
  refine ⟨_, _, t, ?_, .emptyList, hadds, hbusy⟩
  rw [putValue]
  exact ht

theorem written_emptyMap : Written entry n (.map []) := by
  intro s _ hblank _
  obtain ⟨t, ht, hadds, hbusy⟩ := inBrackets_empty hblank "\x7b" "\x7d"
  refine ⟨_, _, t, ?_, .emptyMap, hadds, hbusy⟩
  rw [putValue]
  exact ht

theorem putValue_list {xs : List Value} (hne : xs ≠ []) (s : Sheet) :
    putValue .block ⟨false, entry, false⟩ s (.list xs)
      = onLines s (!entry || s.fresh) fun s => putBlockItems .block s xs := by
  obtain ⟨x, xs, rfl⟩ := List.exists_cons_of_ne_nil hne
  rw [putValue]
  rfl

theorem putValue_map {es : Entries} (hne : es ≠ []) (s : Sheet) :
    putValue .block ⟨false, entry, false⟩ s (.map es)
      = onLines s true fun s => putBlockEntries .block s es := by
  obtain ⟨e, es, rfl⟩ := List.exists_cons_of_ne_nil hne
  rw [putValue]
  rfl

theorem written_list {xs : List Value} (hne : xs ≠ [])
    (items : ∀ x ∈ xs, Written false (if entry then n else n + levelIndent) x) :
    Written entry n (.list xs) := by
  intro s hn hblank hfresh
  rw [putValue_list hne]
  cases entry with
  | true =>
      -- The list of an entry is not a level of its own.
      have hs : s.deeper false (!true || s.fresh) = s := by
        have hfresh : s.fresh = false := hfresh
        rw [deeper_eq hn, hfresh]
        cases s
        simp_all
      have hline : (s.deeper false (!true || s.fresh)).Adds ('\n' :: indentation n)
            (s.deeper false (!true || s.fresh)).newLine ∧
          (s.deeper false (!true || s.fresh)).newLine.StandsAt n := by
        rw [hs]
        exact Sheet.Busy.newLine ⟨hblank, hfresh⟩ hn
      obtain ⟨cs, ts, u, hu, hlays, hadds, hbusy⟩ := onLines_items hne items hline
      exact ⟨_, _, u, hu, .listOfEntry hlays, hadds, hbusy⟩
  | false =>
      have hline := Sheet.newLine_after_hyphen (s := s.deeper false (!false || s.fresh))
        hfresh.1 hfresh.2 (by rw [deeper_eq hn]; rfl)
      obtain ⟨cs, ts, u, hu, hlays, hadds, hbusy⟩ := onLines_items hne items hline
      exact ⟨_, _, u, hu, .listOfItem hlays, hadds, hbusy⟩

theorem written_map {es : Entries} (hne : es ≠ [])
    (names : ∀ e ∈ es, ∃ k, e.1 = .text k ∧ IsName k)
    (values : ∀ e ∈ es, Written true (n + levelIndent) e.2) : Written entry n (.map es) := by
  intro s hn hblank hfresh
  rw [putValue_map hne]
  cases entry with
  | true =>
      have hline := Sheet.Busy.newLine (s := s.deeper false true) ⟨hblank, hfresh⟩
        (by rw [deeper_eq hn])
      obtain ⟨cs, ts, u, hu, hlays, hadds, hbusy⟩ := onLines_entries hne names values hline
      exact ⟨_, _, u, hu, .mapOfEntry hlays, hadds, hbusy⟩
  | false =>
      have hline := Sheet.newLine_after_hyphen (s := s.deeper false true) hfresh.1 hfresh.2
        (by rw [deeper_eq hn]; rfl)
      obtain ⟨cs, ts, u, hu, hlays, hadds, hbusy⟩ := onLines_entries hne names values hline
      exact ⟨_, _, u, hu, .mapOfItem hlays, hadds, hbusy⟩

/-- A legible value is written, by induction on the value. -/
theorem Legible.written {v : Value} (h : Legible entry n v) : Written entry n v := by
  induction h with
  | leaf leaf simple survives => exact written_leaf leaf simple survives
  | @list entry n xs _ ih =>
      cases xs with
      | nil => exact written_emptyList
      | cons => exact written_list (List.cons_ne_nil _ _) ih
  | @map entry n es names _ ih =>
      cases es with
      | nil => exact written_emptyMap
      | cons => exact written_map (List.cons_ne_nil _ _) names ih

/-- A document that is a mapping is written as its entries, from the first column on. -/
theorem write_lays {v : Value} {es : Entries} (hv : v.sortKeys = .map es) (hne : es ≠ [])
    (names : ∀ e ∈ es, ∃ k, e.1 = .text k ∧ IsName k) (values : ∀ e ∈ es, Legible true 0 e.2) :
    ∃ cs ts, write .block v = .ok (String.ofList (cs ++ ['\n'])) ∧ LaysEntries 0 es cs ts := by
  have hopen : endsOpen .block v = .ok false := by
    cases v with
    | map => rfl
    | _ => cases hv
  have hnew := Sheet.newLine_of_fresh (s := Sheet.empty.deeper false true) (n := 0) rfl rfl
    (.inr ⟨rfl, rfl⟩)
  have hstart : (Sheet.empty.deeper false true).Adds [] (Sheet.empty.deeper false true).newLine ∧
      (Sheet.empty.deeper false true).newLine.StandsAt 0 := by
    rw [hnew]
    exact ⟨⟨by simp [indentation], rfl⟩, rfl, rfl, rfl, rfl⟩
  obtain ⟨cs, ts, u, hu, hlays, hadds, hbusy⟩ :=
    onLines_entries hne names (fun e he => (values e he).written) hstart
  have hput : putValue .block ⟨false, false, false⟩ .empty v.sortKeys = .ok u := by
    rw [hv, putValue, ← hu]
    have : (false || Style.block.flow || es.isEmpty) = false := by
      simpa [Style.block, List.isEmpty_eq_false_iff] using hne
    simp only [this, Bool.false_eq_true, if_false]
  have hline := Sheet.newLine_of_full (s := u) (n := 0) (hadds.indent_getD rfl) (.inl hbusy.fresh)
  refine ⟨cs, ts, ?_, hlays⟩
  have htext : u.newLine.text ++ "" = String.ofList (cs ++ ['\n']) := by
    rw [hline]
    refine String.toList_inj.1 ?_
    have := hadds.chars
    simp only [List.nil_append] at this
    simp [this, Sheet.empty, indentation]
  rw [write, hput, Result.ok_bind, hopen, Result.ok_bind]
  exact congrArg Except.ok htext

/-! ### What a layout looks like -/

theorem indentation_clean (n : Nat) : ∀ c ∈ indentation n, IsClean c := fun c hc =>
  List.eq_of_mem_replicate hc ▸ isClean_of_ascii (by decide)

mutual

/-- Nothing but printable characters is written, and no carriage return. -/
theorem Lays.clean : ∀ {entry : Bool} {n : Nat} {v : Value} {cs : List Char} {ts : List Token},
    Lays entry n v cs ts → ∀ c ∈ cs, IsClean c
  | _, _, _, _, _, .leaf _ simple _ spelled =>
    List.forall_mem_cons.2 ⟨isClean_of_ascii (by decide), spelled.clean fun hq =>
      (traits_quotable_iff.1 (simple.quotable hq)).2.2⟩
  | _, _, _, _, _, .emptyList => fun c hc => isClean_of_ascii (by revert c hc; decide)
  | _, _, _, _, _, .emptyMap => fun c hc => isClean_of_ascii (by revert c hc; decide)
  | _, _, _, _, _, .listOfEntry items =>
    List.forall_mem_append.2
      ⟨List.forall_mem_cons.2 ⟨isClean_feed, indentation_clean _⟩, items.clean⟩
  | _, _, _, _, _, .listOfItem items =>
    List.forall_mem_cons.2 ⟨isClean_of_ascii (by decide), items.clean⟩
  | _, _, _, _, _, .mapOfEntry entries =>
    List.forall_mem_append.2
      ⟨List.forall_mem_cons.2 ⟨isClean_feed, indentation_clean _⟩, entries.clean⟩
  | _, _, _, _, _, .mapOfItem entries =>
    List.forall_mem_cons.2 ⟨isClean_of_ascii (by decide), entries.clean⟩

theorem LaysItems.clean : ∀ {n : Nat} {xs : List Value} {cs : List Char} {ts : List Token},
    LaysItems n xs cs ts → ∀ c ∈ cs, IsClean c
  | _, _, _, _, .one item => List.forall_mem_cons.2 ⟨isClean_of_ascii (by decide), item.clean⟩
  | _, _, _, _, .more item rest => by
    have hitem := item.clean
    have hrest := rest.clean
    simp only [List.forall_mem_append, List.forall_mem_cons]
    exact ⟨⟨⟨isClean_of_ascii (by decide), hitem⟩, isClean_feed, indentation_clean _⟩, hrest⟩

theorem LaysEntries.clean : ∀ {n : Nat} {es : Entries} {cs : List Char} {ts : List Token},
    LaysEntries n es cs ts → ∀ c ∈ cs, IsClean c
  | _, _, _, _, .one name value =>
    List.forall_mem_append.2
      ⟨name.clean, List.forall_mem_cons.2 ⟨isClean_of_ascii (by decide), value.clean⟩⟩
  | _, _, _, _, .more name value rest => by
    have hvalue := value.clean
    have hrest := rest.clean
    simp only [List.forall_mem_append, List.forall_mem_cons]
    exact ⟨⟨⟨name.clean, isClean_of_ascii (by decide), hvalue⟩, isClean_feed, indentation_clean _⟩,
      hrest⟩

end

end Yaml

end FormDesigner
