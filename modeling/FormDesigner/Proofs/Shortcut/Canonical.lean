import FormDesigner.Proofs.Text.Case
import FormDesigner.Proofs.Text.Splitting
import FormDesigner.Shortcut.Binding

/-!
# Canonical texts of key combinations

Between plus signs, a text names modifiers and keys, however they are spaced, capitalised, ordered
and repeated. If it names one key, its canonical text names the same and is canonical itself. So two
texts have one canonical text exactly if they name the same modifiers and the same key.
-/

namespace FormDesigner

namespace Combo

open Text (lower trim)

variable {s t a b p key : String} {ps : List String} {c : Combo} {m : Modifier}

/-- A text names a modifier, by its name or by another one, between plus signs. -/
def Names (s : String) (m : Modifier) : Prop :=
  ∃ piece ∈ s.splitOn "+", Modifier.ofName? (lower (trim piece)) = some m

/-- What a text names between plus signs apart from modifiers, in lower case. -/
def keysIn (s : String) : List String :=
  ((s.splitOn "+").map fun piece => lower (trim piece)).filter fun p =>
    p ≠ "" ∧ Modifier.ofName? p = none

/-! ### Parts -/

/-- A part as it stands in a canonical text. -/
structure IsPart (p : String) : Prop where
  filled : p ≠ ""
  whole : '+' ∉ p.toList
  trimmed : trim p = p
  lowered : lower p = p

theorem isPart_of_mem_parts (h : p ∈ parts s) : IsPart p := by
  rw [parts, List.mem_map] at h
  obtain ⟨q, hq, rfl⟩ := h
  obtain ⟨hq, hfilled⟩ := List.mem_filter.1 hq
  obtain ⟨piece, hpiece, rfl⟩ := List.mem_map.1 hq
  have hwhole : '+' ∉ (trim piece).toList := by
    rw [trim, String.toList_ofList]
    exact fun h => Text.not_mem_of_mem_splitOn hpiece (Text.mem_of_mem_trimChars h)
  exact ⟨mt Text.lower_eq_empty_iff.1 (of_decide_eq_true hfilled), Text.plus_notMem_lower hwhole,
    Text.trim_lower (Text.trim_ofList_trimChars _), Text.lower_lower _⟩

theorem isPart_name (m : Modifier) : IsPart m.name := by
  cases m <;> exact ⟨by decide, by decide, by decide +kernel, by decide +kernel⟩

theorem ofName?_name (m : Modifier) : Modifier.ofName? m.name = some m := by
  cases m <;> decide

/-- Texts that are parts already are the parts of what they are joined to. -/
theorem parts_intercalate (hne : ps ≠ []) (h : ∀ p ∈ ps, IsPart p) :
    parts ("+".intercalate ps) = ps := by
  have hpieces : ("+".intercalate ps).splitOn "+" = ps :=
    Text.splitOn_intercalate hne fun p hp => (h p hp).whole
  have hmap {f : String → String} (hf : ∀ p ∈ ps, f p = p) : ps.map f = ps :=
    (List.map_congr_left hf).trans (List.map_id ps)
  have hfilled : ps.filter (· ≠ "") = ps :=
    List.filter_eq_self.2 fun p hp => decide_eq_true (h p hp).filled
  rw [parts, hpieces, hmap fun p hp => (h p hp).trimmed, hfilled, hmap fun p hp => (h p hp).lowered]

/-- It makes no difference whether empty parts are left out before or after lowering. -/
theorem parts_eq (s : String) :
    parts s = ((s.splitOn "+").map fun piece => lower (trim piece)).filter (· ≠ "") := by
  have hfilled : ((fun p : String => decide (p ≠ "")) ∘ lower) = fun p => decide (p ≠ "") :=
    funext fun q => decide_eq_decide.2 (not_congr Text.lower_eq_empty_iff)
  have hmap : (s.splitOn "+").map (fun piece => lower (trim piece)) =
      ((s.splitOn "+").map trim).map lower := by
    rw [List.map_map]
    rfl
  rw [parts, hmap]
  generalize (s.splitOn "+").map trim = qs
  rw [List.filter_map, hfilled]

/-! ### What a text names -/

theorem names_iff : Names s m ↔ ∃ p ∈ parts s, Modifier.ofName? p = some m := by
  rw [parts_eq]
  constructor
  · rintro ⟨piece, hpiece, hm⟩
    refine ⟨lower (trim piece), List.mem_filter.2 ⟨List.mem_map_of_mem hpiece, ?_⟩, hm⟩
    refine decide_eq_true fun hempty => ?_
    rw [hempty] at hm
    cases hm
  · rintro ⟨p, hp, hm⟩
    obtain ⟨piece, hpiece, rfl⟩ := List.mem_map.1 (List.mem_filter.1 hp).1
    exact ⟨piece, hpiece, hm⟩

theorem keysIn_eq (s : String) :
    keysIn s = (parts s).filter fun p => (Modifier.ofName? p).isNone := by
  rw [parts_eq, List.filter_filter, keysIn]
  refine List.filter_congr fun p _ => ?_
  rw [Bool.eq_iff_iff, decide_eq_true_eq, Bool.and_eq_true, Option.isNone_iff_eq_none,
    decide_eq_true_eq, and_comm]

theorem ofText?_eq_some_iff : ofText? s = some c ↔ keysIn s = [c.key] ∧
    c.modifiers = Modifier.all.filter ((parts s).filterMap Modifier.ofName?).contains := by
  rw [ofText?, ofParts?, ← keysIn_eq]
  split
  · rename_i key hkey
    rw [hkey]
    constructor
    · intro h
      obtain rfl := Option.some.inj h
      exact ⟨rfl, rfl⟩
    · rintro ⟨hkeys, hmodifiers⟩
      obtain rfl := (List.cons.inj hkeys).1
      exact congrArg (fun held => some (⟨held, c.key⟩ : Combo)) hmodifiers.symm
  · rename_i hother
    refine ⟨fun h => ?_, fun h => absurd h.1 (hother c.key)⟩
    cases h

theorem ofText?_eq_none_iff : ofText? s = none ↔ (keysIn s).length ≠ 1 := by
  rw [Option.eq_none_iff_forall_ne_some, Ne, List.length_eq_one_iff, not_exists]
  constructor
  · intro h key hkey
    exact h ⟨_, key⟩ (ofText?_eq_some_iff.2 ⟨hkey, rfl⟩)
  · intro h c hc
    exact h c.key (ofText?_eq_some_iff.1 hc).1

theorem mem_modifiers_iff (h : ofText? s = some c) : m ∈ c.modifiers ↔ Names s m := by
  have hall : m ∈ Modifier.all := by cases m <;> decide
  rw [(ofText?_eq_some_iff.1 h).2, List.mem_filter, and_iff_right hall, List.contains_iff_mem,
    List.mem_filterMap, names_iff]

/-- The same modifiers stand in one order. -/
theorem eq_of_ofText? {d : Combo} (hc : ofText? s = some c) (hd : ofText? t = some d)
    (hnames : ∀ m, Names s m ↔ Names t m) (hkeys : keysIn s = keysIn t) : c = d := by
  obtain ⟨hckey, hcmodifiers⟩ := ofText?_eq_some_iff.1 hc
  obtain ⟨hdkey, hdmodifiers⟩ := ofText?_eq_some_iff.1 hd
  have hkey : c.key = d.key := List.singleton_inj.1 (hckey.symm.trans (hkeys.trans hdkey))
  have hmodifiers : c.modifiers = d.modifiers := by
    rw [hcmodifiers, hdmodifiers]
    refine List.filter_congr fun m _ => ?_
    rw [Bool.eq_iff_iff, List.contains_iff_mem, List.contains_iff_mem, List.mem_filterMap,
      List.mem_filterMap, ← names_iff, ← names_iff, hnames]
  cases c
  cases d
  cases hkey
  cases hmodifiers
  rfl

theorem parts_text (h : ofText? s = some c) :
    parts c.text = c.modifiers.map Modifier.name ++ [c.key] := by
  have hkey : c.key ∈ keysIn s := by
    rw [(ofText?_eq_some_iff.1 h).1]
    exact List.mem_singleton_self _
  rw [keysIn_eq] at hkey
  refine parts_intercalate (by simp) (List.forall_mem_append.2 ⟨?_, ?_⟩)
  · exact List.forall_mem_map.2 fun m _ => isPart_name m
  · exact List.forall_mem_singleton.2 (isPart_of_mem_parts (List.mem_filter.1 hkey).1)

/-- The canonical text of a combination names that combination. -/
theorem ofText?_text (h : ofText? s = some c) : ofText? c.text = some c := by
  obtain ⟨hkeys, hmodifiers⟩ := ofText?_eq_some_iff.1 h
  have hkey : (Modifier.ofName? c.key).isNone = true := by
    have hmem : c.key ∈ keysIn s := hkeys ▸ List.mem_singleton_self c.key
    rw [keysIn_eq] at hmem
    exact (List.mem_filter.1 hmem).2
  have hnames : Modifier.ofName? ∘ Modifier.name = some := funext ofName?_name
  have hheld : (parts c.text).filterMap Modifier.ofName? = c.modifiers := by
    rw [parts_text h, List.filterMap_append, List.filterMap_map, hnames, List.filterMap_some,
      List.filterMap_cons_none (Option.isNone_iff_eq_none.1 hkey), List.filterMap_nil,
      List.append_nil]
  rw [ofText?_eq_some_iff, hheld, keysIn_eq, parts_text h, List.filter_append]
  constructor
  · have hnone : (c.modifiers.map Modifier.name).filter
        (fun p => (Modifier.ofName? p).isNone) = [] := by
      rw [List.filter_eq_nil_iff, List.forall_mem_map]
      intro m _
      rw [ofName?_name]
      exact Bool.false_ne_true
    rw [hnone, List.nil_append]
    exact List.filter_eq_self.2 (List.forall_mem_singleton.2 hkey)
  · -- The modifiers stand in their fixed order already.
    refine hmodifiers.trans (List.filter_congr fun m hm => ?_)
    rw [Bool.eq_iff_iff, List.contains_iff_mem, List.contains_iff_mem, hmodifiers, List.mem_filter,
      and_iff_right hm, List.contains_iff_mem]

theorem canonical_eq_ok_iff : canonical s = .ok a ↔ ∃ c, ofText? s = some c ∧ c.text = a := by
  unfold canonical
  cases ofText? s with
  | none =>
      constructor
      · intro h
        cases h
      · rintro ⟨_, h, _⟩
        cases h
  | some c =>
      constructor
      · intro h
        exact ⟨c, rfl, Except.ok.inj h⟩
      · rintro ⟨d, hd, rfl⟩
        rw [Option.some.inj hd]

/-- A text has no canonical text exactly if it does not name exactly one thing apart from modifiers.
The canonical texts of two others are the same exactly if both name the same modifiers and the same
key; and a canonical text is its own canonical text. -/
theorem canonical_agrees :
    (∀ s, canonical s =
        .error (.fault .value ("Key combo must name exactly one key: " ++ Text.quoted s)) ↔
      (keysIn s).length ≠ 1) ∧
    (∀ s t a b, canonical s = .ok a → canonical t = .ok b →
      (a = b ↔ (∀ m, Names s m ↔ Names t m) ∧ keysIn s = keysIn t)) ∧
    ∀ s a, canonical s = .ok a → canonical a = .ok a := by
  refine ⟨fun s => ?_, fun s t a b ha hb => ?_, fun s a ha => ?_⟩
  · rw [← ofText?_eq_none_iff, canonical]
    cases ofText? s with
    | none => exact iff_of_true rfl rfl
    | some c =>
        constructor
        · intro h
          cases h
        · intro h
          cases h
  · obtain ⟨c, hc, rfl⟩ := canonical_eq_ok_iff.1 ha
    obtain ⟨d, hd, rfl⟩ := canonical_eq_ok_iff.1 hb
    constructor
    · intro htext
      have hsame : some c = some d := by
        rw [← ofText?_text hc, ← ofText?_text hd, htext]
      obtain rfl := Option.some.inj hsame
      refine ⟨fun m => ?_, ?_⟩
      · rw [← mem_modifiers_iff hc, mem_modifiers_iff hd]
      · rw [(ofText?_eq_some_iff.1 hc).1, (ofText?_eq_some_iff.1 hd).1]
    · rintro ⟨hnames, hkeys⟩
      rw [eq_of_ofText? hc hd hnames hkeys]
  · obtain ⟨c, hc, rfl⟩ := canonical_eq_ok_iff.1 ha
    exact canonical_eq_ok_iff.2 ⟨c, ofText?_text hc, rfl⟩

/-- Two texts that name one combination, one that names another key and one that names none. -/
theorem canonical_agrees_samples :
    canonical " Shift+Ctrl + Z" = .ok "ctrl+shift+z" ∧
      canonical "control + SHIFT++ctrl+z" = .ok "ctrl+shift+z" ∧
      canonical "Control+Shift+İ" = .ok "ctrl+shift+i̇" ∧
      ((∀ m, Names " Shift+Ctrl + Z" m ↔ Names "control + SHIFT++ctrl+z" m) ∧
        keysIn " Shift+Ctrl + Z" = keysIn "control + SHIFT++ctrl+z") ∧
      ¬ ((∀ m, Names " Shift+Ctrl + Z" m ↔ Names "Control+Shift+İ" m) ∧
        keysIn " Shift+Ctrl + Z" = keysIn "Control+Shift+İ") ∧
      canonical "ctrl+shift+i̇" = .ok "ctrl+shift+i̇" ∧
      (keysIn "ctrl + Shift").length ≠ 1 ∧
      canonical "ctrl + Shift" =
        .error (.fault .value ("Key combo must name exactly one key: " ++
          Text.quoted "ctrl + Shift")) := by
  have hpieces (s : String) : s.splitOn "+" = (s.toList.splitOn '+').map String.ofList :=
    Text.splitOn_singleton s '+'
  have hread {s : String} (c : Combo) (h : ofParts? (((((s.toList.splitOn '+').map
      String.ofList).map trim).filter (· ≠ "")).map lower) = some c) : canonical s = .ok c.text := by
    rw [← hpieces] at h
    exact canonical_eq_ok_iff.2 ⟨c, h, rfl⟩
  have hspaced : canonical " Shift+Ctrl + Z" = .ok "ctrl+shift+z" :=
    hread ⟨[.control, .shift], "z"⟩ (by decide +kernel)
  have hrepeated : canonical "control + SHIFT++ctrl+z" = .ok "ctrl+shift+z" :=
    hread ⟨[.control, .shift], "z"⟩ (by decide +kernel)
  have hdotted : canonical "Control+Shift+İ" = .ok "ctrl+shift+i̇" :=
    hread ⟨[.control, .shift], "i̇"⟩ (by decide +kernel)
  have hnone : (keysIn "ctrl + Shift").length ≠ 1 := by
    rw [keysIn, hpieces]
    decide +kernel
  obtain ⟨hrejected, hsame, hagain⟩ := canonical_agrees
  refine ⟨hspaced, hrepeated, hdotted, (hsame _ _ _ _ hspaced hrepeated).1 rfl, fun hnames => ?_,
    hagain _ _ hdotted, hnone, (hrejected _).2 hnone⟩
  exact absurd ((hsame _ _ _ _ hspaced hdotted).2 hnames) (by decide)

end Combo

end FormDesigner
