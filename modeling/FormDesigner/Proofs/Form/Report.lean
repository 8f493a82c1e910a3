import Mathlib
import FormDesigner.Proofs.Form.Names

/-!
# What a report holds

The spots of a form are checked one after the other, and a message replaces what is noted under the
same name. So a report holds, under each name, the message of the last spot with that name. Where no
key holds a bracket, all names differ and nothing is lost; elsewhere an array and a key such as
`key[0]` can share a name, and what is wrong with an item of the array gives way to what the walk
finds later.
-/

namespace FormDesigner

namespace Form

open Expression (LimitSource)
open Value (gathered)
open Result

namespace Report

variable {r : Report} {name : String} {message : Option String}

theorem same_iff {e : Value × Option String} :
    (Value.text name).same e.1 = true ↔ e.1 = .text name := Value.same_text_iff

/-- A name that is noted already keeps its place; another one comes last. -/
theorem note_cases (r : Report) (name : String) (message : Option String) :
    (.text name ∈ r.map Prod.fst ∧ r.note (.text name) message =
        .ok (r.map fun e => if (Value.text name).same e.1 then (e.1, message) else e)) ∨
      .text name ∉ r.map Prod.fst ∧
        r.note (.text name) message = .ok (r ++ [(.text name, message)]) := by
  have hany : (r.any fun e => (Value.text name).same e.1) = true ↔ .text name ∈ r.map Prod.fst := by
    simp
  rw [note, if_neg (by simp [Value.isHashable])]
  by_cases hname : .text name ∈ r.map Prod.fst
  · exact .inl ⟨hname, if_pos (hany.2 hname)⟩
  · exact .inr ⟨hname, if_neg (mt hany.1 hname)⟩

/-- Noting a message replaces what is noted under the name, and nothing else. -/
theorem exists_note (r : Report) (name : String) (message : Option String) :
    ∃ r', r.note (.text name) message = .ok r' ∧
      ((r.map Prod.fst).Nodup → (r'.map Prod.fst).Nodup) ∧
      ∀ e, e ∈ r' ↔ e = (.text name, message) ∨ e ∈ r ∧ e.1 ≠ .text name := by
  rcases note_cases r name message with ⟨hname, hnote⟩ | ⟨hname, hnote⟩
  · refine ⟨_, hnote, ?_, ?_⟩
    · intro hnodup
      rw [List.map_map]
      convert hnodup using 2
      funext e
      dsimp only [Function.comp]
      split <;> rfl
    · intro e
      rw [List.mem_map]
      constructor
      · rintro ⟨d, hd, rfl⟩
        by_cases hsame : (Value.text name).same d.1 = true
        · left
          rw [if_pos hsame, same_iff.1 hsame]
        · right
          rw [if_neg hsame]
          exact ⟨hd, mt same_iff.2 hsame⟩
      · rintro (rfl | ⟨he, hne⟩)
        · obtain ⟨d, hd, hkey⟩ := List.mem_map.1 hname
          refine ⟨d, hd, ?_⟩
          rw [if_pos (same_iff.2 hkey), hkey]
        · exact ⟨e, he, if_neg (mt same_iff.1 hne)⟩
  · refine ⟨_, hnote, ?_, ?_⟩
    · intro hnodup
      rw [List.map_append]
      apply List.nodup_append'.2
      exact ⟨hnodup, List.nodup_singleton _, List.disjoint_singleton.2 hname⟩
    · intro e
      rw [List.mem_append, List.mem_singleton]
      constructor
      · rintro (he | rfl)
        · right
          exact ⟨he, fun hkey => hname (hkey ▸ List.mem_map_of_mem he)⟩
        · exact .inl rfl
      · rintro (rfl | ⟨he, -⟩)
        · exact .inr rfl
        · exact .inl he

theorem hasErrors_of_mem {v : Value} {text : String} (h : (v, some text) ∈ r) :
    r.hasErrors = true := by
  have hfailing : (v, text) ∈ r.failing := List.mem_filterMap.2 ⟨_, h, rfl⟩
  rw [hasErrors, Bool.not_eq_true', List.isEmpty_eq_false_iff]
  exact List.ne_nil_of_mem hfailing

end Report

/-! ### The last spot with a name -/

/-- The last of some spots with its name. -/
def IsLast (spots : List Spot) (s : Spot) : Prop :=
  ∃ before after, spots = before ++ s :: after ∧ ∀ t ∈ after, t.name ≠ s.name

variable {limits : LimitSource} {schema : Value} {values : Entries} {visited : List Spot}
variable {r r' : Report} {s t : Spot}

theorem IsLast.mem (h : IsLast visited s) : s ∈ visited := by
  obtain ⟨before, after, rfl, -⟩ := h
  exact List.mem_append_right _ List.mem_cons_self

theorem isLast_concat : IsLast (visited ++ [t]) s ↔ s = t ∨ IsLast visited s ∧ s.name ≠ t.name := by
  constructor
  · rintro ⟨before, after, heq, hafter⟩
    rcases List.eq_nil_or_concat after with rfl | ⟨after, u, rfl⟩
    · exact .inl (List.cons.inj (List.append_inj' heq rfl).2).1.symm
    · rw [List.concat_eq_append, ← List.cons_append, ← List.append_assoc] at heq
      obtain ⟨rfl, hu⟩ := List.append_inj' heq rfl
      obtain rfl := (List.cons.inj hu).1
      right
      refine ⟨⟨before, after, rfl, fun u hu => ?_⟩, (hafter t ?_).symm⟩
      · exact hafter u (by simp [hu])
      · simp
  · rintro (rfl | ⟨⟨before, after, rfl, hafter⟩, hne⟩)
    · exact ⟨visited, [], rfl, fun u hu => by cases hu⟩
    · refine ⟨before, after ++ [t], by simp, fun u hu => ?_⟩
      rcases List.mem_append.1 hu with hu | hu
      · exact hafter u hu
      · obtain rfl := List.mem_singleton.1 hu
        exact hne.symm

theorem exists_isLast (h : s ∈ visited) : ∃ t, IsLast visited t ∧ t.name = s.name := by
  induction visited using List.reverseRecOn with
  | nil => cases h
  | append_singleton visited u ih =>
      by_cases hname : s.name = u.name
      · exact ⟨u, isLast_concat.2 (.inl rfl), hname.symm⟩
      · rcases List.mem_append.1 h with h | h
        · obtain ⟨t, ht, heq⟩ := ih h
          exact ⟨t, isLast_concat.2 (.inr ⟨ht, heq ▸ hname⟩), heq⟩
        · exact absurd (congrArg Spot.name (List.mem_singleton.1 h)) hname

theorem isLast_of_nodup (hnames : (visited.map Spot.name).Nodup) (h : s ∈ visited) :
    IsLast visited s := by
  obtain ⟨before, after, rfl⟩ := List.append_of_mem h
  rw [List.map_append, List.map_cons] at hnames
  have hafter := (List.nodup_cons.1 (List.nodup_append'.1 hnames).2.1).1
  exact ⟨before, after, rfl, fun t ht heq => hafter (heq ▸ List.mem_map_of_mem ht)⟩

/-! ### Reports -/

/-- A report on some spots: it names nothing twice and holds, under each name, the message of the
last spot with that name. -/
structure HoldsLast (limits : LimitSource) (visited : List Spot) (r : Report) : Prop where
  checked : ∀ s ∈ visited, ∃ message, s.message? limits = .ok message
  names : (r.map Prod.fst).Nodup
  mem_iff : ∀ e, e ∈ r ↔ ∃ s message, IsLast visited s ∧ s.message? limits = .ok message ∧
    e = (.text s.name, message)

theorem HoldsLast.noteAt (h : HoldsLast limits visited r) (hr : noteAt limits r s = .ok r') :
    HoldsLast limits (visited ++ [s]) r' := by
  obtain ⟨message, hmessage, hnote⟩ := bind_eq_ok.1 hr
  obtain ⟨r'', hnote', hnames, hmem⟩ := r.exists_note s.name message
  obtain rfl := Except.ok.inj (hnote.symm.trans hnote')
  constructor
  · exact List.forall_mem_append.2 ⟨h.checked, List.forall_mem_singleton.2 ⟨message, hmessage⟩⟩
  · exact hnames h.names
  · intro e
    rw [hmem, h.mem_iff]
    constructor
    · rintro (rfl | ⟨⟨t, m, hlast, hm, rfl⟩, hne⟩)
      · exact ⟨s, message, isLast_concat.2 (.inl rfl), hmessage, rfl⟩
      · have hname : t.name ≠ s.name := fun heq => hne (congrArg Value.text heq)
        exact ⟨t, m, isLast_concat.2 (.inr ⟨hlast, hname⟩), hm, rfl⟩
    · rintro ⟨t, m, hlast, hm, rfl⟩
      rcases isLast_concat.1 hlast with rfl | ⟨hlast, hname⟩
      · obtain rfl := Except.ok.inj (hm.symm.trans hmessage)
        exact .inl rfl
      · exact .inr ⟨⟨t, m, hlast, hm, rfl⟩, fun heq => hname (Value.text.inj heq)⟩

/-- By induction on the spots, from the last one backwards: what is noted for it is in the report,
with what is noted for those before it under other names. -/
theorem holdsLast_of_foldlM (h : visited.foldlM (noteAt limits) [] = .ok r) :
    HoldsLast limits visited r := by
  induction visited using List.reverseRecOn generalizing r with
  | nil =>
      obtain rfl := Except.ok.inj h
      constructor
      · intro s hs
        cases hs
      · exact List.nodup_nil
      · intro e
        constructor
        · intro he
          cases he
        · rintro ⟨s, -, hlast, -⟩
          cases hlast.mem
  | append_singleton visited s ih =>
      rw [List.foldlM_append] at h
      obtain ⟨r', hr', h⟩ := bind_eq_ok.1 h
      rw [List.foldlM_cons] at h
      obtain ⟨r'', hr'', h⟩ := bind_eq_ok.1 h
      obtain rfl := Except.ok.inj h
      exact (ih hr').noteAt hr''

theorem noteAt_failsOnly (r : Report) (s : Spot) :
    FailsOnly (fun f => s.message? limits = .error f) (noteAt limits r s) := by
  intro f hf
  rw [noteAt] at hf
  cases hmessage : s.message? limits with
  | error g =>
      rw [hmessage] at hf
      exact congrArg _ (Except.error.inj hf)
  | ok message =>
      obtain ⟨r', hr', -⟩ := r.exists_note s.name message
      rw [hmessage, ok_bind, hr'] at hf
      cases hf

theorem foldlM_noteAt_failsOnly (r : Report) :
    FailsOnly (fun f => ∃ s ∈ visited, s.message? limits = .error f)
      (visited.foldlM (noteAt limits) r) := by
  apply FailsOnly.foldlM
  intro r s hs
  exact (noteAt_failsOnly r s).mono fun f hf => ⟨s, hs, hf⟩

/-- What is wrong at a spot is in the report, and if something is, then the form has errors. -/
def Spot.IsKept (limits : LimitSource) (r : Report) (s : Spot) : Prop :=
  ∃ message, s.message? limits = .ok message ∧ (.text s.name, message) ∈ r ∧
    (message ≠ none → r.hasErrors = true)

theorem HoldsLast.isKept (h : HoldsLast limits visited r) (hs : IsLast visited s) :
    s.IsKept limits r := by
  obtain ⟨message, hmessage⟩ := h.checked s hs.mem
  have hmem := (h.mem_iff (.text s.name, message)).2 ⟨s, message, hs, hmessage, rfl⟩
  refine ⟨message, hmessage, hmem, fun hne => ?_⟩
  obtain ⟨text, rfl⟩ := Option.ne_none_iff_exists'.1 hne
  exact Report.hasErrors_of_mem hmem

/-- A form with a valid schema gets a report unless a check at one of its spots fails. The report
holds the messages of the last spots with their names. So what is wrong at a spot is in the report,
unless a later spot takes its name, which none does where no key holds a bracket. -/
theorem report_of_valid (limits : LimitSource) (schema : Value) (values : Entries)
    (valid : Schema.problems schema = .ok []) :
    (∃ s f, Visited limits schema values s ∧ s.message? limits = .error f ∧
        report limits schema values = .error f) ∨
      ∃ r, report limits schema values = .ok r ∧
        HoldsLast limits (spots limits schema values) r ∧
        (∀ s, Visited limits schema values s → s.IsKept limits r ∨
          ∃ t, IsLast (spots limits schema values) t ∧ t.name = s.name ∧ t ≠ s) ∧
        (IsBracketFree ((Schema.rootFields schema).flatMap (gathered "key")) →
          ∀ s, Visited limits schema values s → s.IsKept limits r) := by
  obtain ⟨hshape, -, hkeys, -⟩ := Schema.problems_eq_nil_iff.1 valid
  rw [report_eq hshape]
  cases hr : (spots limits schema values).foldlM (noteAt limits) [] with
  | error f =>
      left
      obtain ⟨s, hs, hf⟩ := foldlM_noteAt_failsOnly [] f hr
      exact ⟨s, f, mem_spots_iff.1 hs, hf, rfl⟩
  | ok r =>
      right
      have hlast := holdsLast_of_foldlM hr
      refine ⟨r, rfl, hlast, ?_, ?_⟩
      · intro s hs
        obtain ⟨t, ht, heq⟩ := exists_isLast (mem_spots_iff.2 hs)
        by_cases hts : t = s
        · exact .inl (hlast.isKept (hts ▸ ht))
        · exact .inr ⟨t, ht, heq, hts⟩
      · intro hfree s hs
        exact hlast.isKept (isLast_of_nodup (nodup_spots hshape hkeys hfree) (mem_spots_iff.2 hs))

/-- A number. -/
def sharingItem : Value :=
  .ofFields [("id", .text "2"), ("key", .text "b"), ("type", .text "number"), ("label", .text "B")]

/-- A list of numbers. -/
def sharingList : Value :=
  .ofFields [("id", .text "1"), ("key", .text "a"), ("type", .text "array"), ("label", .text "A"),
    ("of", sharingItem)]

/-- A text whose key is the name of the first item of the list. -/
def sharingText : Value :=
  .ofFields [("id", .text "3"), ("key", .text "a[0]"), ("type", .text "text"), ("label", .text "C")]

def sharingForm : Value :=
  .ofFields [("version", .int 1), ("fields", .list [sharingList, sharingText])]

def sharingValues : Entries := [(.text "a", .list [.text "x"]), (.text "a[0]", .text "y")]

/-- The item is no number, which gives way to the text that is checked under the same name. -/
theorem item_not_kept :
    ∃ r s, report (.ok .standard) sharingForm sharingValues = .ok r ∧
      HoldsLast (.ok .standard) (spots (.ok .standard) sharingForm sharingValues) r ∧
      Visited (.ok .standard) sharingForm sharingValues s ∧
      s.message? (.ok .standard) = .ok (some numberMessage) ∧
      ¬ s.IsKept (.ok .standard) r ∧ r.hasErrors = false := by
  have hvalid : Schema.problems sharingForm = .ok [] := by cbv
  have hreport : report (.ok .standard) sharingForm sharingValues =
      .ok [(.text "a", none), (.text "a[0]", none)] := by cbv
  obtain ⟨_, _, -, -, hfails⟩ | ⟨r, hr, hlast, -⟩ :=
    report_of_valid (.ok .standard) sharingForm sharingValues hvalid
  · cases hreport.symm.trans hfails
  obtain rfl := Except.ok.inj (hreport.symm.trans hr)
  have hroots : roots sharingForm sharingValues = [⟨sharingList, sharingValues, "a", ""⟩,
      ⟨sharingText, sharingValues, "a[0]", ""⟩] := by cbv
  have hparts : Spot.parts (.ok .standard) ⟨sharingList, sharingValues, "a", ""⟩ =
      [⟨sharingItem, sharingValues ++ [(.text "b", .text "x")], "a[0]", "a[0]."⟩] := by cbv
  have hmessage : Spot.message? (.ok .standard)
      ⟨sharingItem, sharingValues ++ [(.text "b", .text "x")], "a[0]", "a[0]."⟩ =
        .ok (some numberMessage) := by cbv
  have hvisited := Visited.inside (.root (hroots ▸ List.mem_cons_self))
    (hparts ▸ List.mem_singleton_self _)
  refine ⟨_, _, hreport, hlast, hvisited, hmessage, ?_, rfl⟩
  rintro ⟨m, hm, -, herrors⟩
  obtain rfl := Except.ok.inj (hmessage.symm.trans hm)
  exact absurd (herrors (by decide)) (by decide)

end Form

end FormDesigner
