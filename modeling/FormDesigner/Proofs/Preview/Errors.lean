import FormDesigner.Proofs.Preview.Drawing
import FormDesigner.Proofs.Store.Reachable

/-!
# The errors that the preview shows

A message of the report is shown where its name leads: below the field with that key, or at the item
whose name it begins with. The names inside an item go on from that of the item with a dot, unless
the item is an array itself: then they go on with a bracket, which the preview does not look for.
-/

namespace FormDesigner

namespace Form

open Expression (LimitSource)

variable {limits : LimitSource} {values : Entries} {a template : Value} {entry : Value × Nat}
variable {s t : Spot}

theorem prefix_of_append (s t : String) : s.toList <+: (s ++ t).toList := by
  rw [String.toList_append]
  exact List.prefix_append _ _

/-- What the name of a spot and the names of its children begin with, all names below it do. -/
theorem Spot.prefix_of_mem_walk {start : List Char} (hname : start <+: s.name.toList)
    (hstart : start <+: s.start.toList) (ht : t ∈ s.walk limits) : start <+: t.name.toList := by
  induction s using Spot.walk.induct limits with
  | case1 s ih =>
      rcases Spot.mem_walk_cases ht with rfl | ⟨part, hpart, ht⟩
      · exact hname
      have hpart' := hpart
      obtain ⟨-, ⟨-, c, -, rfl⟩ | ⟨u, -, i, -, hn, hs⟩⟩ := Spot.part_cases hpart'
      · refine ih ⟨_, hpart⟩ ?_ hstart ht
        exact hstart.trans (prefix_of_append s.start (keyText c))
      · have hitem : start <+: (itemName s.name i).toList := by
          rw [toList_itemName]
          exact hname.trans (List.prefix_append _ _)
        refine ih ⟨_, hpart⟩ (hn ▸ hitem) ?_ ht
        rw [hs]
        exact hitem.trans (prefix_of_append _ _)

/-- A name inside an item is that of the item, or goes on from it with a dot, unless the item is an
array. -/
theorem IsInItem.name_cases (h : IsInItem limits values a template entry t)
    (hplain : template.isArray = false) : t.name = itemName (keyText a) entry.2 ∨
      (itemName (keyText a) entry.2 ++ ".").toList <+: t.name.toList := by
  obtain ⟨-, -, -, item, hitem, hwalk⟩ := h
  obtain ⟨hfield, hname, hstart⟩ := Spot.item?_eq_some hitem
  rcases Spot.mem_walk_cases hwalk with rfl | ⟨part, hpart, ht⟩
  · exact .inl hname
  right
  obtain ⟨-, ⟨-, c, -, rfl⟩ | ⟨u, hu, -⟩⟩ := Spot.part_cases hpart
  · refine Spot.prefix_of_mem_walk ?_ ?_ ht
    · show _ <+: (item.start ++ keyText c).toList
      rw [hstart]
      exact prefix_of_append _ _
    · show _ <+: item.start.toList
      rw [hstart]
      exact List.prefix_rfl
  · rw [hfield, Value.templateValue?, hplain] at hu
    cases hu

/-- What fails in a report is wrong at the last spot with its name. -/
theorem HoldsLast.exists_of_failing {visited : List Spot} {r : Report} {name : Value} {m : String}
    (h : HoldsLast limits visited r) (hm : (name, m) ∈ r.failing) :
    ∃ t, IsLast visited t ∧ t.message? limits = .ok (some m) ∧ name = .text t.name := by
  obtain ⟨⟨name', message⟩, he, hmessage⟩ := List.mem_filterMap.1 hm
  obtain ⟨t, message', hlast, ht, heq⟩ := (h.mem_iff _).1 he
  obtain ⟨rfl, rfl⟩ := Prod.mk.inj heq
  obtain ⟨m', rfl, hpair⟩ := Option.map_eq_some_iff.1 hmessage
  obtain ⟨rfl, rfl⟩ := Prod.mk.inj hpair
  exact ⟨t, hlast, ht, rfl⟩

end Form

namespace Preview

open Expression (LimitSource)
open Form (IsListed IsOpen IsInItem Spot itemName keyText ownSpot)

variable {filled : Filled} {limits : LimitSource} {a f v template : Value} {key m : String}
variable {entry : Value × Nat} {i : Nat} {p q : Page} {raw : Entries}

theorem mem_itemMessages {messages : Form.Report} {name item : String}
    (h : (.text name, m) ∈ messages.failing)
    (hname : name = item ∨ (item ++ ".").toList <+: name.toList) :
    m ∈ itemMessages messages item := by
  refine List.mem_filterMap.2 ⟨_, h, ?_⟩
  rw [← String.startsWith_string_iff] at hname
  exact if_pos (by simpa using hname)

/-- A message at an item of an array. -/
def itemError (i : Nat) (m : String) : Element := .error ("Item " ++ toString (i + 1) ++ ": " ++ m)

/-- What has been drawn since a page is still there later. -/
theorem mem_drop_of_goesOn {e : Element} {n : Nat} (h : e ∈ p.shown.drop n) (hpq : p.GoesOn q) :
    e ∈ q.shown.drop n :=
  (hpq.shown.drop n).subset h

theorem addItemError_leaves {n : Nat} (hn : n ≤ p.shown.length) (e : Element) :
    (Drawing.add e).Leaves p fun _ q => e ∈ q.shown.drop n := by
  rw [Drawing.leaves_add, List.drop_append_of_le_length hn]
  exact List.mem_append_right _ (List.mem_singleton_self _)

/-- What an array holds in the values that are drawn. -/
def heldItems (values : Entries) (key : String) : List Value :=
  (((Entries.get? values (.text key)).getD .null).asSequence?).getD []

theorem textOf_key_leaves {Q : String → Page → Prop} (hentry : a.entry "key" = .ok (.text key))
    (h : Q key p) : (textOf a "key").Leaves p Q := by
  rw [textOf, hentry, Drawing.leaves_ofExcept]
  intro s hs
  cases hs
  exact h

/-- An array is drawn with the messages of its items. -/
theorem drawArray_shows_items (fits : a.Fits) (hkey : a.getOrNull "key" = .text key) :
    (drawArray a filled).Leaves p fun _ q => ∀ i ∈ List.range (heldItems filled.values key).length,
      ∀ m ∈ itemMessages filled.messages (itemName key i),
        itemError i m ∈ q.shown.drop p.shown.length := by
  have hentry : a.entry "key" = .ok (.text key) := hkey ▸ Form.entry_key_of_fits fits
  unfold drawArray
  rw [Drawing.leaves_bind, Drawing.leaves_ofExcept, hentry]
  intro k hk
  cases hk
  rw [Drawing.leaves_bind, Drawing.leaves_ofExcept]
  intro held hheld
  cases hheld
  refine .after (markedLabel_still a).steady fun label q₁ h₁ => ?_
  refine .after (Drawing.still_add _).steady fun _ q₂ h₂ => ?_
  refine .after (hint_still a).steady fun _ q₃ h₃ => ?_
  refine .after (Drawing.still_ofExcept _).steady fun columns q₄ h₄ => ?_
  refine .after (Drawing.still_ofExcept _).steady fun table q₅ h₅ => ?_
  refine .after (textOf_still a _).steady fun id q₆ h₆ => ?_
  refine .after (Drawing.still_tableEditor _ _).steady fun edited q₇ h₇ => ?_
  have hq := h₁.trans (h₂.trans (h₃.trans (h₄.trans (h₅.trans (h₆.trans h₇)))))
  rw [Drawing.leaves_bind]
  refine (Drawing.leaves_forIn (P := fun i q => ∀ m ∈ itemMessages filled.messages (itemName key i),
    itemError i m ∈ q.shown.drop p.shown.length) ?_ ?_ ?_ _ _).mono ?_
  · intro i u
    refine (textOf_still a _).bind fun k => (Drawing.still_forIn ?_ _ _).bind fun _ => ?_
    · exact fun m u => (Drawing.still_add _).bind fun _ => Drawing.still_pure _
    · exact Drawing.still_pure _
  · intro i u r hr
    rw [Drawing.leaves_bind]
    refine textOf_key_leaves hentry ?_
    rw [Drawing.leaves_bind]
    refine (Drawing.leaves_forIn (P := fun m q => itemError i m ∈ q.shown.drop p.shown.length)
      ?_ ?_ ?_ _ _).mono ?_
    · exact fun m u => (Drawing.still_add _).bind fun _ => Drawing.still_pure _
    · intro m v t ht
      rw [Drawing.leaves_bind]
      refine (addItemError_leaves (hq.trans (hr.trans ht)).shown.length_le _).mono fun _ t' h => ?_
      exact (Drawing.leaves_pure _).2 ⟨⟨_, rfl⟩, h⟩
    · exact fun h ht => mem_drop_of_goesOn h ht
    · exact fun _ t h => (Drawing.leaves_pure _).2 ⟨⟨_, rfl⟩, h⟩
  · intro i q r hq hr m hm
    exact mem_drop_of_goesOn (hq m hm) hr
  · intro u q h
    refine Drawing.leaves_ite ?_ ((Drawing.leaves_pure _).2 h)
    rw [Drawing.leaves_bind]
    exact (Drawing.leaves_self _ _).mono fun _ r _ => Drawing.leaves_redraw.2 trivial

/-- The message about a field comes right after what has been drawn. -/
theorem drawMessage_shows (fits : f.Fits) (hkey : f.getOrNull "key" = .text key)
    (hnames : (filled.messages.map Prod.fst).Nodup)
    (h : (.text key, some m) ∈ filled.messages) :
    (drawMessage f filled).Leaves p fun _ q => q.shown = p.shown ++ [.error m] := by
  have hfound : filled.messages.find? (fun e => (Value.text key).same e.1) =
      some (.text key, some m) := by
    have hsome : (filled.messages.find? fun e => (Value.text key).same e.1).isSome = true :=
      List.find?_isSome.2 ⟨_, h, Form.Report.same_iff.2 rfl⟩
    obtain ⟨e, he⟩ := Option.isSome_iff_exists.1 hsome
    rw [he]
    have hsame : e.1 = .text key := Form.Report.same_iff.1 (by simpa using List.find?_some he)
    exact congrArg some (List.inj_on_of_nodup_map hnames (List.mem_of_find?_eq_some he) h hsame)
  rw [drawMessage, Drawing.leaves_bind, Drawing.leaves_ofExcept, Form.entry_key_of_fits fits, hkey]
  intro k hk
  cases hk
  rw [hfound]
  exact (Drawing.leaves_add _).2 rfl

/-! ### Where messages are shown -/

/-- A message stands right below the control or the table of a field. -/
def StandsBelow (filled : Filled) (f : Value) (m : String) (page : Page) : Prop :=
  ∃ p q, (drawInput f filled).run p = (.ok (), q) ∧ q.shown ++ [.error m] <+: page.shown

/-- A message stands at an item of an array, with the array. -/
def StandsAtItem (filled : Filled) (a : Value) (i : Nat) (m : String) (page : Page) : Prop :=
  ∃ p q, (drawArray a filled).run p = (.ok (), q) ∧
    itemError i m ∈ q.shown.drop p.shown.length ∧ q.shown <+: page.shown

/-- A message about a spot is shown where the spot belongs: below the field, or at the item that it
is inside of. -/
inductive IsShownFor (limits : LimitSource) (schema : Value) (filled : Filled) (page : Page) :
    Spot → String → Prop
  | field {f : Value} {m : String}
      (listed : IsListed limits filled.values (Schema.rootFields schema) f)
      (stands : StandsBelow filled f m page) :
      IsShownFor limits schema filled page (ownSpot filled.values f) m
  | item {a template : Value} {entry : Value × Nat} {t : Spot} {m : String}
      (listed : IsListed limits filled.values (Schema.rootFields schema) a)
      (inside : IsInItem limits filled.values a template entry t)
      (stands : StandsAtItem filled a entry.2 m page) : IsShownFor limits schema filled page t m

theorem IsShownFor.mem {schema : Value} {t : Spot} {page : Page}
    (h : IsShownFor limits schema filled page t m) :
    .error m ∈ page.shown ∨ ∃ i, itemError i m ∈ page.shown := by
  cases h with
  | field _ stands =>
      obtain ⟨p, q, -, hshown⟩ := stands
      exact .inl (hshown.subset (List.mem_append_right _ (List.mem_singleton_self _)))
  | item _ _ stands =>
      obtain ⟨p, q, -, hmem, hshown⟩ := stands
      exact .inr ⟨_, hshown.subset (List.mem_of_mem_drop hmem)⟩

/-- A spot inside an item that is an array itself, such as an item of that array. -/
def IsOverlooked (limits : LimitSource) (schema : Value) (values : Entries) (t : Spot) : Prop :=
  ∃ a template entry, IsListed limits values (Schema.rootFields schema) a ∧
    IsInItem limits values a template entry t ∧ template.isArray = true ∧
    t.name ≠ itemName (keyText a) entry.2

theorem IsDrawn.run (h : IsDrawn filled f p) : ∃ p₁ p₂ p₃,
    (drawInput f filled).run p₁ = (.ok (), p₂) ∧ (drawMessage f filled).run p₂ = (.ok (), p₃) ∧
      p₃.shown <+: p.shown := by
  obtain ⟨p₁, p₃, hrun, hp⟩ := h
  have hparts : (drawOwn f filled).Leaves p₁ fun _ p₃ => ∃ p₂,
      (drawInput f filled).run p₁ = (.ok (), p₂) ∧
        (drawMessage f filled).run p₂ = (.ok (), p₃) := by
    rw [drawOwn, Drawing.leaves_bind]
    refine (Drawing.leaves_self _ _).mono fun _ p₂ h₂ => ?_
    exact (Drawing.leaves_self _ _).mono fun _ p₃ h₃ => ⟨p₂, h₂, h₃⟩
  obtain ⟨p₂, h₂, h₃⟩ := Drawing.leaves_iff.1 hparts _ _ hrun
  exact ⟨p₁, p₂, p₃, h₂, h₃, hp⟩

theorem IsDrawn.standsBelow (h : IsDrawn filled f p) (fits : f.Fits)
    (hkey : f.getOrNull "key" = .text key) (hnames : (filled.messages.map Prod.fst).Nodup)
    (hmem : (.text key, some m) ∈ filled.messages) : StandsBelow filled f m p := by
  obtain ⟨p₁, p₂, p₃, hinput, hmessage, hp⟩ := h.run
  have hshown := Drawing.leaves_iff.1 (drawMessage_shows fits hkey hnames hmem) _ _ hmessage
  exact ⟨p₁, p₂, hinput, hshown ▸ hp⟩

theorem IsDrawn.standsAtItem (h : IsDrawn filled a p) (fits : a.Fits) (harray : a.isArray = true)
    (hkey : a.getOrNull "key" = .text key) (hi : i < (heldItems filled.values key).length)
    (hm : m ∈ itemMessages filled.messages (itemName key i)) : StandsAtItem filled a i m p := by
  obtain ⟨p₁, p₂, p₃, hinput, hmessage, hp⟩ := h.run
  rw [drawInput, if_pos harray] at hinput
  have hitems := Drawing.leaves_iff.1 (drawArray_shows_items fits hkey) _ _ hinput
  have hgoes := Drawing.leaves_iff.1 ((drawMessage_still a filled).steady p₂) _ _ hmessage
  exact ⟨p₁, p₂, hinput, hitems i (List.mem_range.2 hi) m hm, hgoes.shown.trans hp⟩

variable {schema : Value} {t : Spot}

/-- A field with a message is listed and has neither parts nor a computed value. -/
theorem listed_of_message (fits : f.Fits)
    (hopen : IsOpen limits filled.values (Schema.rootFields schema) f)
    (hm : Form.fieldMessage? limits f filled.values = .ok (some m)) :
    IsListed limits filled.values (Schema.rootFields schema) f ∧ f.isSection = false := by
  rw [Form.fieldMessage?, Form.demandMap_of_fits fits, Result.ok_bind] at hm
  obtain ⟨shown, hshown, hm⟩ := Result.bind_eq_ok.1 hm
  cases shown with
  | false => cases hm
  | true =>
      refine ⟨⟨hopen, hshown⟩, ?_⟩
      by_contra hsection
      rw [if_neg (by decide), if_pos (by simp [hsection])] at hm
      cases hm

/-- Where every listed field is drawn, the messages of the report are shown, but for those inside
items that are arrays themselves. -/
theorem shown_or_overlooked (hshape : Schema.HasShape schema)
    (hreport : Form.HoldsLast limits (Form.spots limits schema filled.values) filled.messages)
    (hdrawn : ∀ f, IsListed limits filled.values (Schema.rootFields schema) f →
      f.isSection = false → IsDrawn filled f p)
    (ht : Form.IsLast (Form.spots limits schema filled.values) t)
    (hm : t.message? limits = .ok (some m)) :
    IsShownFor limits schema filled p t m ∨ IsOverlooked limits schema filled.values t := by
  have hmem : (.text t.name, some m) ∈ filled.messages :=
    (hreport.mem_iff _).2 ⟨t, some m, ht, hm, rfl⟩
  have hfailing : (.text t.name, m) ∈ filled.messages.failing :=
    List.mem_filterMap.2 ⟨_, hmem, rfl⟩
  rcases (Form.mem_spots_iff.1 ht.mem).isOpen_or_isInItem with
    ⟨hopen, hown⟩ | ⟨a, template, entry, hopen, hinside⟩
  · have fits := hopen.fits hshape.fits
    obtain ⟨key, -, hkey⟩ := fits.key
    rw [hown] at hm hmem ⊢
    obtain ⟨hlisted, hplain⟩ := listed_of_message fits hopen hm
    have hname : (ownSpot filled.values t.field).name = key := Form.keyText_eq hkey
    rw [hname] at hmem
    exact .inl (.field hlisted
      ((hdrawn t.field hlisted hplain).standsBelow fits hkey hreport.names hmem))
  · have fits := hopen.fits hshape.fits
    obtain ⟨key, -, hkey⟩ := fits.key
    have hlisted : IsListed limits filled.values (Schema.rootFields schema) a := ⟨hopen, hinside.1⟩
    by_cases hover : template.isArray = true ∧ t.name ≠ itemName (keyText a) entry.2
    · exact .inr ⟨a, template, entry, hlisted, hinside, hover.1, hover.2⟩
    left
    have harray : a.isArray = true := by
      by_contra harray
      have htemplate := hinside.2.1
      rw [Value.templateValue?, if_neg harray] at htemplate
      cases htemplate
    have hplain : a.isSection = false := by
      by_contra hsection
      cases harray.symm.trans (Value.not_isArray_of_isSection (by simpa using hsection))
    have hname : t.name = itemName key entry.2 ∨
        (itemName key entry.2 ++ ".").toList <+: t.name.toList := by
      rw [← Form.keyText_eq hkey]
      by_cases htemplate : template.isArray = true
      · exact .inl (by_contra fun hne => hover ⟨htemplate, hne⟩)
      · exact hinside.name_cases (by simpa using htemplate)
    have hi : entry.2 < (heldItems filled.values key).length := by
      have hentry := hinside.2.2.1
      have hcomputed := Form.hasComputed_of_mem_items hentry
      obtain ⟨hlt, -⟩ := List.getElem?_eq_some_iff.1
        ((Form.mem_items_iff hkey hcomputed).1 hentry)
      exact hlt
    exact .item hlisted hinside ((hdrawn a hlisted hplain).standsAtItem fits harray hkey hi
      (mem_itemMessages hfailing hname))

theorem drawControls_shows_count (hpressed : (Value.text "preview_validate").among p.visit.pressed)
    (hfailing : filled.messages.failing ≠ []) :
    (drawControls filled).Leaves p fun _ q =>
      countError filled.messages.failing.length ∈ q.shown := by
  rw [drawControls_eq]
  refine .after (Drawing.still_add _).steady fun _ q₁ h₁ => ?_
  refine .after (Drawing.still_add _).steady fun _ q₂ h₂ => ?_
  rw [Drawing.leaves_bind, Drawing.leaves_button, h₂.visit, h₁.visit]
  change Drawing.Leaves (if (Value.text "preview_validate").among p.visit.pressed then _ else _) _ _
  rw [if_pos hpressed, Drawing.leaves_bind, drawVerdict,
    if_neg (by simpa using hfailing), Drawing.leaves_add]
  exact (drawReset_still _).steady.keeps_shown (List.mem_append_right _ (List.mem_singleton_self _))

variable {s : Session} {v : Visit} {page : Page} {store : Store}

/-- A form without fields has no messages. -/
theorem failing_of_no_fields (hshape : Schema.HasShape schema)
    (hfields : (schema.getOrNull "fields").isTrue = false)
    (hfill : fillWith limits schema raw = .ok filled) : filled.messages.failing = [] := by
  obtain ⟨-, hmessages⟩ := fillWith_eq_ok.1 hfill
  rw [Form.report_eq hshape, Form.spots, Form.roots, rootFields_of_no_fields hshape hfields]
    at hmessages
  rw [← Except.ok.inj hmessages]
  rfl

/-- A preview that has been drawn shows all that is wrong with the form, as far as it looks. Every
message of the report is that of a spot, and is shown below the field, or at the item that the spot
is inside of, unless the item is an array and the message is not about the item itself. The count
that answers the button is that of all messages. -/
theorem draw_shows_failing (hstore : s.store? = some store)
    (valid : Schema.problems store.schema = .ok [])
    (complete : draw.outcome s v = (.ok (), page)) :
    ((store.schema.getOrNull "fields").isTrue = true → ∃ filled, fill s store.schema = .ok filled) ∧
      ∀ filled, fill s store.schema = .ok filled →
        (∀ name m, (name, m) ∈ filled.messages.failing →
          ∃ t, Form.Visited s.limits store.schema filled.values t ∧ name = .text t.name ∧
            t.message? s.limits = .ok (some m) ∧
            (IsShownFor s.limits store.schema filled page t m ∨
              IsOverlooked s.limits store.schema filled.values t)) ∧
        ((Value.text "preview_validate").among v.pressed = true → filled.messages.failing ≠ [] →
          countError filled.messages.failing.length ∈ page.shown) := by
  obtain ⟨hshape, -, -, -⟩ := Schema.problems_eq_nil_iff.1 valid
  have hreport : ∀ filled, fill s store.schema = .ok filled →
      Form.HoldsLast s.limits (Form.spots s.limits store.schema filled.values)
        filled.messages := by
    intro filled hfill
    obtain ⟨raw, -, hfill⟩ := Result.bind_eq_ok.1 hfill
    obtain ⟨-, hmessages⟩ := fillWith_eq_ok.1 hfill
    rw [Form.report_eq hshape] at hmessages
    exact Form.holdsLast_of_foldlM hmessages
  cases hfields : (store.schema.getOrNull "fields").isTrue with
  | false =>
      refine ⟨Bool.noConfusion, fun filled hfill => ?_⟩
      obtain ⟨raw, -, hfill⟩ := Result.bind_eq_ok.1 hfill
      rw [failing_of_no_fields hshape hfields hfill]
      constructor
      · intro name m h
        cases h
      · intro _ h
        exact absurd rfl h
  | true =>
      obtain ⟨raw, filled, q, hraw, hfilled, hdrawn, hcontrols⟩ :=
        draw_of_ok hstore hfields complete
      have hfill : fill s store.schema = .ok filled := by rw [fill, hraw, Result.ok_bind, hfilled]
      refine ⟨fun _ => ⟨filled, hfill⟩, fun filled' hfill' => ?_⟩
      obtain rfl := Except.ok.inj (hfill.symm.trans hfill')
      have hgoes := Drawing.leaves_iff.1 (drawFields_steady filled _ _) _ _ hdrawn
      have hrest := Drawing.leaves_iff.1 ((drawControls_still filled).steady q) _ _ hcontrols
      constructor
      · intro name m hfailing
        obtain ⟨t, hlast, hm, rfl⟩ := (hreport filled hfill).exists_of_failing hfailing
        refine ⟨t, Form.mem_spots_iff.1 hlast.mem, rfl, hm, ?_⟩
        rw [Schema.forest_eq] at hdrawn
        have hlimits : (openPage s v raw).session.limits = s.limits := rfl
        have hlisted := Drawing.leaves_iff.1
          (drawFields_drawsListed hlimits fun f _ p hp => drawField_drawsListed hp) _ _ hdrawn
        refine shown_or_overlooked hshape (hreport filled hfill) (fun f hf hplain => ?_) hlast hm
        exact (hlisted.isDrawn hf hplain).mono hrest
      · intro hpressed hne
        have hvisit : q.visit = v := hgoes.visit
        exact Drawing.leaves_iff.1 (drawControls_shows_count (hvisit ▸ hpressed) hne) _ _ hcontrols

/-! ### A list of lists -/

/-- A list whose items are lists of numbers. -/
def rowList : Value :=
  .ofFields [("id", .text "1"), ("key", .text "a"), ("type", .text "array"), ("label", .text "A"),
    ("of", .ofFields [("id", .text "2"), ("key", .text "b"), ("type", .text "array"),
      ("label", .text "B"), ("of", .ofFields [("id", .text "3"), ("key", .text "c"),
        ("type", .text "number"), ("label", .text "C")])])]

def gridForm : Value := .ofFields [("version", .int 1), ("fields", .list [rowList])]

/-- The inner list holds a text where a number should be. -/
def gridValues : Entries := [(.text "a", .list [.list [.text "x"]])]

def gridFilled : Filled := ⟨gridValues, [(.text "a", none), (.text "a[0]", none),
  (.text "a[0][0]", some Form.numberMessage)]⟩

def gridStore : Store := { Store.bare with schema := gridForm }

def gridSession : Session := ⟨.inr gridStore, [(.text "preview_values", .map gridValues)], none⟩

/-- The button that checks the form is pressed. -/
def validating : Visit := ⟨[.text "preview_validate"], []⟩

/-- The page on which the list is drawn. -/
def gridStart : Page := openPage gridSession validating gridValues

/-- What is shown of the list. -/
def gridShown : List Element :=
  [.subheader "👀 Preview", .markdown "**A**",
    ⟨"data_editor", [(Table.ofCells (.text "value") [.list [.text "x"]]).toValue],
      [("num_rows", .text "dynamic"), ("use_container_width", .bool true),
        ("hide_index", .bool true), ("disabled", .bool false), ("key", .text "preview_1_items")]⟩]

/-- What is shown below the list. -/
def verdictShown : List Element :=
  [.divider, .columns [1, 1], .control "button" "✅ Validate" [("key", .text "preview_validate")],
    countError 1, .control "button" "🔄 Reset form" [("key", .text "preview_reset")],
    .expander "Values", .json (.map gridValues)]

def gridPage : Page := ⟨gridSession, validating, gridShown ++ verdictShown⟩

theorem fillWith_grid (limits : LimitSource) :
    fillWith limits gridForm gridValues = .ok gridFilled := by cbv

theorem drawOwn_rowList : (drawOwn rowList gridFilled).run gridStart =
    (.ok (), ⟨gridSession, validating, gridShown⟩) := by cbv

/-- The list needs no condition to hold, so it does not matter what limits expressions have. -/
theorem isShown_rowList (limits : LimitSource) :
    Form.isShown limits rowList gridValues = .ok true := by cbv

theorem drawFields_grid : (drawFields gridFilled (Schema.forest gridForm)).run gridStart =
    (.ok (), ⟨gridSession, validating, gridShown⟩) := by
  have hforest : Schema.forest gridForm = [Field.ofValue rowList] := by cbv
  have hplain : rowList.isSection = false := by cbv
  exact drawFields_of_one hforest (isShown_rowList _) hplain drawOwn_rowList

theorem draw_grid : draw.outcome gridSession validating = (.ok (), gridPage) := by
  have hstore : gridSession.store? = some gridStore := rfl
  have hraw : gather gridSession gridForm = .ok gridValues := by cbv
  have hcontrols : (drawControls gridFilled).run ⟨gridSession, validating, gridShown⟩ =
      (.ok (), gridPage) := by cbv
  have hfields : (gridStore.schema.getOrNull "fields").isTrue = true := by cbv
  exact draw_completes hstore hfields hraw (fillWith_grid _) drawFields_grid hcontrols

/-- The only error that is shown is the count. -/
theorem error_of_mem_gridPage {m : String} (h : .error m ∈ gridPage.shown) :
    m = "❌ 1 field(s) need attention" := by
  have herrors : gridPage.shown.filter (fun e => e.kind = "error") = [countError 1] := by cbv
  have hmem : Element.error m ∈ gridPage.shown.filter (fun e => e.kind = "error") :=
    List.mem_filter.2 ⟨h, rfl⟩
  rw [herrors] at hmem
  have hm : m = "❌ " ++ toString 1 ++ " field(s) need attention" := by
    simpa [Element.error, Element.line, countError] using hmem
  rw [hm]
  decide

/-- In a list of lists, a number that is none is counted, but its message is not shown. -/
theorem draw_overlooks_inner_item :
    draw.outcome gridSession validating = (.ok (), gridPage) ∧
      fill gridSession gridForm = .ok gridFilled ∧ countError 1 ∈ gridPage.shown ∧
      ∃ t, t.message? gridSession.limits = .ok (some Form.numberMessage) ∧
        IsOverlooked gridSession.limits gridForm gridValues t ∧
        ¬IsShownFor gridSession.limits gridForm gridFilled gridPage t Form.numberMessage := by
  have hfill : fill gridSession gridForm = .ok gridFilled := by
    have hraw : gather gridSession gridForm = .ok gridValues := by cbv
    rw [fill, hraw, Result.ok_bind, fillWith_grid]
  have hvalid : Schema.problems gridStore.schema = .ok [] := by cbv
  have hstore : gridSession.store? = some gridStore := rfl
  obtain ⟨-, hshows⟩ := draw_shows_failing hstore hvalid draw_grid
  obtain ⟨hmessages, hcount⟩ := hshows gridFilled hfill
  have hfailing : (.text "a[0][0]", Form.numberMessage) ∈ gridFilled.messages.failing :=
    List.mem_singleton_self _
  obtain ⟨t, -, -, hm, ht⟩ := hmessages _ _ hfailing
  have hnot : ¬IsShownFor gridSession.limits gridForm gridFilled gridPage t Form.numberMessage := by
    intro h
    obtain h | ⟨i, h⟩ := h.mem
    · exact absurd (error_of_mem_gridPage h) (by decide)
    · have heads := congrArg (fun s : String => s.toList.head?) (error_of_mem_gridPage h)
      simp at heads
  exact ⟨draw_grid, hfill, hcount (by cbv) (List.ne_nil_of_mem hfailing), t, hm,
    ht.resolve_left hnot, hnot⟩

end Preview

end FormDesigner
