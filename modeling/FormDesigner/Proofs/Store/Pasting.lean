import FormDesigner.Proofs.Field.Copying
import FormDesigner.Proofs.Store.Adding

/-!
# Pasting a copy

What is on the clipboard can be pasted any number of times, whatever becomes of the field that was
copied: every copy has ids and keys of its own, so that the tree admits it. All that this takes is
that the supply does not give an id that is in use already, and that a key is found.
-/

namespace FormDesigner

open Work
open Value (gathered)
open FormDesigner.Field (ofValue)

namespace Command

/-- Nothing but copying changes the clipboard. -/
theorem Course.clipboard_eq {s t : Store} {c : Command} {r : Except Failure Reply}
    (h : c.Course s r t) (hc : ∀ id, c ≠ .copy id) : t.clipboard = s.clipboard := by
  cases h with
  | refused | restored | emptied => rfl
  | @copied id => exact absurd rfl (hc id)
  | aside kept => exact kept.clipboard_eq
  | committed _ _ becomes => exact becomes.clipboard_eq
  | turned turns =>
      cases turns with
      | atEnd => rfl
      | turned _ _ _ becomes | unread _ _ _ becomes | unwritten _ _ becomes =>
          exact becomes.clipboard_eq

/-- Names that were given stay given. -/
theorem Course.follows {s t : Store} {c : Command} {r : Except Failure Reply}
    (h : c.Course s r t) : s.host.supply.Follows t.host.supply := by
  cases h with
  | refused follows => exact follows
  | copied | restored | emptied => exact .refl _
  | aside kept => exact kept.supply
  | committed _ _ becomes => exact becomes.supply
  | turned turns =>
      cases turns with
      | atEnd => exact .refl _
      | turned _ _ _ becomes | unread _ _ _ becomes | unwritten _ _ becomes => exact becomes.supply

end Command

namespace Store

variable {s t u : Store} {content copy target : Value} {g : Field} {p q : Supply}

/-- What can become of a store by commands of which each is allowed where it is run, while whatever
surrounds the document may change. -/
inductive Reaches (Allowed : Store → Command → Prop) (s : Store) : Store → Prop
  | refl : Reaches Allowed s s
  | command {t u : Store} {c : Command} {r : Except Failure Reply} (before : Reaches Allowed s t)
      (allowed : Allowed t c) (ran : c.run.outcome t = (r, u)) : Reaches Allowed s u
  | surroundings {t u : Store} (before : Reaches Allowed s t) (same : t.SameDocument u)
      (supply : u.host.supply.GivesIds) : Reaches Allowed s u

/-- A command that can be run any time and copies nothing. -/
def KeepsClipboard (s : Store) (c : Command) : Prop := c.Brings .json s ∧ ∀ id, c ≠ .copy id

theorem Reaches.reachable {capacity : Value} (h : s.Reaches KeepsClipboard t)
    (hs : s.Reachable (fun s c => c.Brings .json s) capacity) :
    t.Reachable (fun s c => c.Brings .json s) capacity := by
  induction h with
  | refl => exact hs
  | command _ allowed ran ih => exact ih.command allowed.1 ran
  | surroundings _ same supply ih => exact ih.surroundings same supply

theorem Reaches.clipboard_eq (h : s.Reaches KeepsClipboard t) : t.clipboard = s.clipboard := by
  induction h with
  | refl => rfl
  | @command t u c r _ allowed ran ih =>
      rw [((c.run_ends t).outcome ran).clipboard_eq allowed.2, ih]
  | surroundings _ same _ ih => rw [same.clipboard, ih]

/-! ### Fresh names -/

/-- The ids that a store will be given are all different, and none is in use. -/
structure GivesFreshIds (s : Store) : Prop where
  distinct : ∀ i j, s.host.supply.ids ≤ i → s.host.supply.ids ≤ j →
    s.host.supply.idAt i = s.host.supply.idAt j → i = j
  unused : ∀ i, s.host.supply.ids ≤ i → .text (s.host.supply.idAt i) ∉ Forest.ids s.forest

private theorem mem_drawn_iff {w : Value} {k : Nat} (hle : p.ids ≤ k) :
    w ∈ (List.range' p.ids (k - p.ids)).map (fun i => Value.text (p.idAt i)) ↔
      ∃ i, p.ids ≤ i ∧ i < k ∧ w = .text (p.idAt i) := by
  simp only [List.mem_map, List.mem_range'_1]
  constructor
  · rintro ⟨i, ⟨hstart, hend⟩, rfl⟩
    exact ⟨i, hstart, by omega, rfl⟩
  · rintro ⟨i, hstart, hend, rfl⟩
    exact ⟨i, ⟨hstart, by omega⟩, rfl⟩

variable {taken : List Value}

/-- A store admits the copies that are made for it. -/
theorem GivesFreshIds.admits_copied (hfresh : s.GivesFreshIds) (hfits : copy.Fits)
    (h : Factory.Copied s.host.supply s.keys [content] ([copy], taken) q) : s.Admits copy := by
  have hids : Forest.ids [ofValue copy] = copy.gathered "id" := by
    rw [← List.map_singleton, Forest.ids_map, List.flatMap_singleton]
  have hkeys : Forest.keys [ofValue copy] = copy.gathered "key" := by
    rw [← List.map_singleton, Forest.keys_map, List.flatMap_singleton]
  have hnames := h.names
  rw [List.flatMap_singleton, List.flatMap_singleton] at hnames
  refine ⟨fieldProblems_eq_nil_iff.2 hfits, ?_, ?_, ?_, ?_⟩
  · rw [hids, hnames.ids]
    refine List.Nodup.map_on (fun i hi j hj heq => ?_) List.nodup_range'
    exact hfresh.distinct i j (List.mem_range'_1.1 hi).1 (List.mem_range'_1.1 hj).1
      (Value.text.inj heq)
  · rw [hkeys]
    exact hnames.nodup
  · rw [hids, hnames.ids]
    intro w hw hcopy
    obtain ⟨i, hi, -, rfl⟩ := (mem_drawn_iff hnames.le).1 hcopy
    exact hfresh.unused i hi hw
  · rw [hkeys]
    exact fun k hk hcopy => hnames.fresh k hcopy hk

/-- Ids that have been given are not given again. -/
theorem GivesFreshIds.committed {D : Value.Domain} {fields : List Value} (hs : s.IsSound D)
    (hfresh : s.GivesFreshIds)
    (h : Factory.Copied s.host.supply s.keys [content] ([copy], taken) q)
    (hfields : s.IsEnlarged copy fields) (ht : (s.withSupply q).Commits fields t) :
    t.GivesFreshIds := by
  have hnames := h.names
  rw [List.flatMap_singleton, List.flatMap_singleton] at hnames
  have hu : (s.withSupply q).IsSound D := hs.becomes ⟨rfl, rfl, rfl, hnames.follows⟩ hs.schema
    hs.snapshots
  have hsupply : t.host.supply = q := ht.supply
  have hidAt : q.idAt = s.host.supply.idAt := hnames.follows.1
  refine ⟨fun i j hi hj => ?_, fun i hi hused => ?_⟩
  · rw [hsupply] at hi hj ⊢
    rw [hidAt]
    exact hfresh.distinct i j (hnames.le.trans hi) (hnames.le.trans hj)
  · rw [hsupply] at hi hused
    rw [hidAt, forest_eq, Forest.ids_map, hu.rootFields_eq ht.schema,
      (hfields.owns "id" (by decide)).mem_iff, List.flatMap_append, List.flatMap_singleton,
      List.mem_append, hnames.ids] at hused
    rcases hused with hused | hused
    · rw [← Forest.ids_map, ← forest_eq] at hused
      exact hfresh.unused i (hnames.le.trans hi) hused
    · obtain ⟨j, hj, hlt, heq⟩ := (mem_drawn_iff hnames.le).1 hused
      have := hfresh.distinct i j (hnames.le.trans hi) hj (Value.text.inj heq)
      omega

/-! ### What is pasted -/

/-- A copy of what is on the clipboard has become part of a store. It is what was copied but for its
ids and keys, which occur in it once and were not in the tree. -/
structure Pasted (s : Store) (content copy : Value) (t : Store) : Prop where
  same : copy.unnamed = content.unnamed
  admitted : s.Admits copy
  clipboard : t.clipboard = s.clipboard
  fresh : t.GivesFreshIds

/-- How pasting ends: with a copy where it should stand, or with nothing done because no key was
found. -/
inductive PasteEnds (s : Store) (content : Value) (stands : Value → Store → Prop) :
    Except Failure Reply → Store → Prop
  | pasted {r : Except Failure Reply} {t : Store} {copy : Value} (pasted : s.Pasted content copy t)
      (place : stands copy t)
      (answer : s.CanSave → r = .ok (.outcome (.success "paste" (copy.getOrNull "id")))) :
      PasteEnds s content stands r t
  | noKeyLeft {start : String} {supply : Supply} :
      PasteEnds s content stands (.error (Factory.noKeyLeft start)) (s.withSupply supply)

end Store

namespace Editing

variable {s : Store} {content target : Value} {g : Field}

theorem freshCopy_draws (hs : s.IsSound .json) (hcontent : content.IsJson ∧ content.Fits) :
    (freshCopy content).Ends s fun r t => ∃ q, t = s.withSupply q ∧
      Factory.Draws (fun copy q => (copy.IsJson ∧ copy.Fits) ∧
        ∃ taken, Factory.Copied s.host.supply s.keys [content] ([copy], taken) q) r q := by
  have hkeys : ∀ k ∈ s.keys, ∃ n, k = .text n := by
    intro k hk
    rw [Store.keys, Store.forest, Schema.keys_forest] at hk
    obtain ⟨x, hx, hk⟩ := List.mem_flatMap.1 hk
    exact (hs.fields x hx).2.gathered_text (.inr rfl) k hk
  have hfits := freshCopy_ends (Factory.isRefreshable_fits hs.supply) hcontent
  have hdraws : (freshCopy content).Ends s fun r t => ∃ q, t = s.withSupply q ∧
      Factory.Draws (fun copy q =>
        ∃ taken, Factory.Copied s.host.supply s.keys [content] ([copy], taken) q) r q := by
    rw [freshCopy, ends_bind, ends_get, andThen_ok, ends_onSupply]
    exact (Factory.regenerate_draws hcontent.1 hcontent.2 hkeys).mono fun r q h => ⟨q, rfl, h⟩
  refine ends_of_outcome fun r t made => ?_
  obtain ⟨q, ht, hr⟩ := hdraws.outcome made
  refine ⟨q, ht, ?_⟩
  cases r with
  | ok copy => exact ⟨(hfits.outcome made).2 copy rfl, hr⟩
  | error e => exact hr

/-- A copy is made and put among the fields of a store. -/
private theorem pasteCopy_ends (hs : s.IsSound .json) (hfresh : s.GivesFreshIds)
    (hcontent : content.IsJson ∧ content.Fits) {w : Value → Editing Outcome}
    {fields : Value → List Value} {stands : Value → Store → Prop}
    (hw : ∀ copy, w copy = commitChecked (fields copy) "paste" (copy.getOrNull "id"))
    (hfields : ∀ copy, copy.IsJson ∧ copy.Fits → s.IsEnlarged copy (fields copy))
    (hstands : ∀ copy q t, Command.AreSound .json (fields copy) →
      (s.withSupply q).Commits (fields copy) t → stands copy t) :
    (freshCopy content >>= w).Ends s fun r t =>
      s.PasteEnds content stands (r.map .outcome) t := by
  rw [ends_bind]
  refine (freshCopy_draws hs hcontent).mono fun r t ⟨q, ht, hr⟩ => ?_
  subst ht
  cases r with
  | error e =>
      obtain ⟨start, rfl⟩ := hr
      exact .noKeyLeft
  | ok copy =>
      obtain ⟨hcopy, taken, hcopied⟩ := hr
      have hu : (s.withSupply q).IsSound .json :=
        hs.becomes ⟨rfl, rfl, rfl, hcopied.names.follows⟩ hs.schema hs.snapshots
      have henlarged := hfields copy hcopy
      have hadmits := hfresh.admits_copied hcopy.2 hcopied
      have hsame : copy.unnamed = content.unnamed := List.singleton_injective hcopied.unnamed
      rw [andThen_ok, hw]
      refine (commitChecked_enlarged (Q := fun t => s.Pasted content copy t ∧ stands copy t) hu
        ⟨henlarged.each, henlarged.owns⟩ hcopy.2 "paste" _ fun t hsound ht => ?_).mono
          fun r t h => ?_
      · refine ⟨⟨hsame, hadmits, ht.clipboard, ?_⟩, hstands copy q t hsound ht⟩
        exact hfresh.committed hs hcopied henlarged ht
      · have hadmitted : (s.withSupply q).Admits copy :=
          ⟨hadmits.shape, hadmits.ids, hadmits.keys, hadmits.freshIds, hadmits.freshKeys⟩
        obtain ⟨hpasted, hplace⟩ := h.changed hadmitted
        exact .pasted hpasted hplace (h.answer hadmitted)

theorem paste_root_ends (hs : s.IsSound .json) (hfresh : s.GivesFreshIds)
    (held : s.clipboard = some content) :
    (paste .null).Ends s fun r t => s.PasteEnds content
      (fun copy t => Schema.rootFields t.schema = Schema.rootFields s.schema ++ [copy])
      (r.map .outcome) t := by
  unfold paste
  rw [ends_bind, ends_get, andThen_ok, held]
  dsimp only
  rw [if_pos (show Value.null.isNull = true from rfl)]
  refine pasteCopy_ends hs hfresh (hs.clipboard content held) (fun copy => ?_)
    (fun copy => hs.isEnlarged_root) fun copy q t hsound ht => ?_
  · rw [withRoot, hs.fields_eq]
    rfl
  · exact hs.rootFields_eq ht.schema

theorem paste_section_ends (hs : s.IsSound .json) (hfresh : s.GivesFreshIds)
    (held : s.clipboard = some content) (hfound : s.find? target = some g)
    (hsection : g.isSection = true) :
    (paste target).Ends s fun r t => s.PasteEnds content
      (fun copy t => s.Nests target copy g t) (r.map .outcome) t := by
  have htarget : ¬ target.isNull = true := by
    obtain ⟨w, -, hid, -, -, hfits⟩ := hs.find? hfound
    obtain ⟨n, -, hn⟩ := hfits.id
    rw [hn] at hid
    intro hnull
    cases target <;> simp [Value.isNull, Value.equals] at hid hnull
  unfold paste
  rw [ends_bind, ends_get, andThen_ok, held]
  dsimp only
  rw [if_neg htarget, ends_bind, ends_ofExcept, section?_eq_ok hfound hsection, andThen_ok]
  dsimp only
  refine pasteCopy_ends hs hfresh (hs.clipboard content held) (fun copy => rfl)
    (fun copy => hs.isEnlarged_section hfound hsection) fun copy q t hsound ht => ?_
  exact hs.nests hfound hsection hsound ht.schema

end Editing

/-- What a store has on its clipboard stays there, whatever is done to the store but copying, and can
be pasted at any time as long as the ids that the supply gives are fresh: a copy comes last at the
root, or last among the children of the section that was found. -/
theorem Store.Reachable.paste_after {s t : Store} {capacity content : Value}
    (hs : s.Reachable (fun s c => c.Brings .json s) capacity) (held : s.clipboard = some content)
    (later : s.Reaches Store.KeepsClipboard t) (hfresh : t.GivesFreshIds) :
    t.clipboard = some content ∧
    (∃ r u, (Command.paste .null).run.outcome t = (r, u) ∧
      t.PasteEnds content (fun copy u =>
        Schema.rootFields u.schema = Schema.rootFields t.schema ++ [copy]) r u) ∧
    ∀ target g, t.find? target = some g → g.isSection = true →
      ∃ r u, (Command.paste target).run.outcome t = (r, u) ∧
        t.PasteEnds content (fun copy u => t.Nests target copy g u) r u := by
  have ht := (later.reachable hs).isSound Value.Domain.isClosed_json fun _ _ h => h
  have held : t.clipboard = some content := later.clipboard_eq.trans held
  have hroot : (Command.paste .null).run.Ends t (t.PasteEnds content fun copy u =>
      Schema.rootFields u.schema = Schema.rootFields t.schema ++ [copy]) :=
    (ends_map _).2 (Editing.paste_root_ends ht hfresh held)
  refine ⟨held, ⟨_, _, rfl, hroot⟩, fun target g hfound hsection => ?_⟩
  have hinside : (Command.paste target).run.Ends t
      (t.PasteEnds content fun copy u => t.Nests target copy g u) :=
    (ends_map _).2 (Editing.paste_section_ends ht hfresh held hfound hsection)
  exact ⟨_, _, rfl, hinside⟩

/-! ### Pasting after small runs -/

theorem Host.bare_idAt_injective : Function.Injective Host.bare.supply.idAt := fun i j h => by
  have hdigits : Nat.toDigits 10 i = Nat.toDigits 10 j := by
    simpa [Host.bare, Nat.repr] using congrArg String.toList h
  rw [← Nat.ofDigitChars_ten_toDigits (n := i), hdigits, Nat.ofDigitChars_ten_toDigits]

theorem Store.follows_after (cs : List Command) (s : Store) :
    s.host.supply.Follows (s.after cs).host.supply := by
  induction cs generalizing s with
  | nil => exact .refl _
  | cons c cs ih =>
      have hstep := ((c.run_ends s).outcome rfl : c.Course s _ _).follows
      have hrest := ih (c.run.outcome s).2
      exact ⟨hrest.1.trans hstep.1, hrest.2.trans hstep.2⟩

/-- The ids that a bare machine gives start with an i. -/
theorem Store.givesFreshIds_after {cs : List Command} (names : List String)
    (hnames : ∀ n ∈ names, n.toList.head? ≠ some 'i')
    (h : ((Forest.ids (Store.bare.after cs).forest).all fun v => v.among (names.map .text)) = true) :
    (Store.bare.after cs).GivesFreshIds := by
  have hidAt : (Store.bare.after cs).host.supply.idAt = Host.bare.supply.idAt :=
    (Store.follows_after cs Store.bare).1
  rw [List.all_eq_true] at h
  refine ⟨fun i j _ _ heq => ?_, fun i _ hused => ?_⟩
  · rw [hidAt] at heq
    exact Host.bare_idAt_injective heq
  · have htexts : ∀ w ∈ names.map Value.text, ∃ s, w = .text s :=
      List.forall_mem_map.2 fun n _ => ⟨n, rfl⟩
    obtain ⟨n, hn, heq⟩ := List.mem_map.1 ((Value.among_iff_of_texts htexts).1 (h _ hused))
    refine hnames n hn ?_
    rw [Value.text.inj heq, hidAt]
    simp [Host.bare]

/-- A copied field is pasted after it was removed. -/
theorem Store.paste_after_removal :
    let t := Store.bare.after
      [.addField (.textField "a"), .copy (.text "a"), .removeField (.text "a")]
    ∃ content copy u, t.clipboard = some content ∧
      (Command.paste .null).run.outcome t =
        (.ok (.outcome (.success "paste" (copy.getOrNull "id"))), u) ∧
      t.Pasted content copy u ∧
      Schema.rootFields u.schema = Schema.rootFields t.schema ++ [copy] := by
  intro t
  let s := Store.bare.after [.addField (.textField "a"), .copy (.text "a")]
  have copied : s.Reachable (fun s c => c.Brings .json s) (.int 2) := by
    refine Store.reachable_of_brings ?_
    simp only [List.forall_mem_cons]
    exact ⟨fun _ => Value.textField_isIn "a", fun _ => trivial, List.forall_mem_nil _⟩
  have later : s.Reaches Store.KeepsClipboard t :=
    .command (.refl) (c := .removeField (.text "a")) ⟨trivial, nofun⟩ rfl
  have hfresh : t.GivesFreshIds :=
    Store.givesFreshIds_after [] (List.forall_mem_nil _) (by decide +kernel)
  have hsome : s.clipboard.isSome = true := by decide +kernel
  have hsave : t.CanSave := Store.canSave_of_no_storage (by decide +kernel)
  have hok : ((Command.paste .null).run.outcome t).1.isOk = true := by decide +kernel
  obtain ⟨content, held⟩ := Option.isSome_iff_exists.1 hsome
  obtain ⟨hheld, ⟨r, u, hrun, hends⟩, -⟩ := Store.Reachable.paste_after copied held later hfresh
  rw [hrun] at hok
  cases hends with
  | noKeyLeft => cases hok
  | @pasted _ _ copy pasted place answer =>
      exact ⟨content, copy, u, hheld, answer hsave ▸ hrun, pasted, place⟩

/-- A field cannot be pasted into the section that an array repeats, although the section is in the
tree. -/
theorem Store.not_pasted_into_repeated_section :
    let s := Store.bare.after [.addField .arrayOfSections, .copy (.text "a")]
    s.Reachable (fun s c => c.Brings .json s) (.int 2) ∧ s.clipboard.isSome = true ∧
      s.GivesFreshIds ∧
      (∃ g ∈ Forest.preorder true s.forest, g.id.equals (.text "t") = true ∧ g.isSection = true) ∧
      ∃ o, ((Command.paste (.text "t")).run.outcome s).1 = .ok (.outcome o) ∧
        o.code = .notFound ∧ o.ok = false := by
  intro s
  have copied : s.Reachable (fun s c => c.Brings .json s) (.int 2) := by
    refine Store.reachable_of_brings ?_
    simp only [List.forall_mem_cons]
    exact ⟨fun _ => Value.arrayOfSections_isJson, fun _ => trivial, List.forall_mem_nil _⟩
  have hlisted : ((Forest.preorder true s.forest).any fun g =>
      g.id.equals (.text "t") && g.isSection) = true := by decide +kernel
  have hsome : s.clipboard.isSome = true := by decide +kernel
  have hmissing : s.find? (.text "t") = none :=
    Option.isNone_iff_eq_none.1 (by decide +kernel)
  obtain ⟨content, held⟩ := Option.isSome_iff_exists.1 hsome
  have hrun : (Command.paste (.text "t")).run.Ends s fun r _ => r =
      .ok (.outcome (.failure .notFound "No field with id 't'" (.text "t") [])) := by
    refine (ends_map _).2 ?_
    unfold Editing.paste
    rw [ends_bind, ends_get, andThen_ok, held]
    dsimp only
    rw [if_neg (show ¬ (Value.text "t").isNull = true from nofun), ends_bind, ends_ofExcept,
      Editing.section?, hmissing]
    rfl
  refine ⟨copied, hsome, ?_, ?_, _, hrun, rfl, rfl⟩
  · exact Store.givesFreshIds_after ["a", "t"] (by decide) (by decide +kernel)
  · obtain ⟨g, hg, h⟩ := List.any_eq_true.1 hlisted
    exact ⟨g, hg, Bool.and_eq_true_iff.1 h⟩

end FormDesigner
