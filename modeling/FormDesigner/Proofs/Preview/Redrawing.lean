import FormDesigner.Proofs.Preview.Drawing
import FormDesigner.Proofs.Preview.Widget
import FormDesigner.Proofs.Store.Reachable

/-!
# Drawing the preview again

Drawing the preview for the first time puts the values of the form into the widgets. When it is
drawn again, the form takes over what the widgets hold, whether or not anything was entered. So a
value that does not survive the way into its widget and back is another one from then on.
-/

namespace FormDesigner

namespace Page

variable {p q : Page}

theorem GoesOn.host (h : p.GoesOn q) : q.session.host = p.session.host := by
  rw [Session.host, Session.host, h.ground]

end Page

namespace Preview

open Expression (LimitSource valueAt)
open Form (IsListed Agree keyText)
open Result

variable {filled : Filled} {limits : LimitSource} {f : Value} {own fs : List Value}
variable {p q : Page} {today : Date} {name : String} {w : Value}

theorem get?_put_self (s : Session) (name : String) (w : Value) :
    (s.put name w).get? name = some w := Entries.get?_insert_self

theorem get?_put_of_ne {other : String} (h : other ≠ name) (s : Session) (w : Value) :
    (s.put name w).get? other = s.get? other := Entries.get?_insert_of_ne h

/-! ### What the widgets hold after drawing -/

/-- The widget of a field holds what it shows of the value of the form. -/
def Holds (today : Date) (values : Entries) (f : Value) (s : Session) : Prop :=
  ∃ w, shown today f (valueAt values (keyText f)) = .ok w ∧ s.get? (widgetName f) = some w

theorem drawControl_holds (h : f.Fits) : (drawControl f filled).Leaves p fun _ q =>
    (Holds p.session.host.clock.date filled.values f q.session ∧
      ∀ name, name ≠ widgetName f → q.session.get? name = p.session.get? name) ∨
    (p.session.get? (widgetName f)).isSome = true ∧ q.session = p.session := by
  have hrest : (do Drawing.add (← control f (widgetName f))).IsStill :=
    (control_still f _).bind fun _ => Drawing.still_add _
  unfold drawControl
  rw [Drawing.leaves_bind, Drawing.leaves_ofExcept, widgetKey_eq h]
  intro key hkey
  cases hkey
  rw [Drawing.leaves_bind, Drawing.leaves_get]
  dsimp only
  split
  · rw [Drawing.leaves_bind, Drawing.leaves_ofExcept]
    intro held hheld
    rw [Form.entry_key_of_fits h, ok_bind, Form.lookUp_of_fits h] at hheld
    cases hheld
    rw [Drawing.leaves_bind, Drawing.leaves_ofExcept]
    intro w hw
    rw [Drawing.leaves_bind, Drawing.leaves_sit, Work.ends_modify]
    intro _ _
    refine (hrest _).mono fun _ q hq => .inl ?_
    obtain ⟨name, -, hname⟩ := h.key
    rw [hname] at hw
    rw [hq.2, Holds, Form.keyText_eq hname]
    exact ⟨⟨w, hw, get?_put_self _ _ _⟩, fun name hne => get?_put_of_ne hne _ _⟩
  · rename_i hheld
    refine (hrest _).mono fun _ q hq => .inr ⟨?_, hq.2⟩
    rw [Bool.or_eq_true, not_or, Bool.not_eq_true, Bool.not_eq_true,
      Option.isNone_eq_false_iff] at hheld
    exact hheld.2

theorem drawOwn_holds (h : f.Fits) : (drawOwn f filled).Leaves p fun _ q =>
    (f.isArray = false ∧ Holds p.session.host.clock.date filled.values f q.session ∧
      ∀ name, name ≠ widgetName f → q.session.get? name = p.session.get? name) ∨
    (f.isArray = false → (p.session.get? (widgetName f)).isSome = true) ∧
      q.session = p.session := by
  rw [drawOwn, Drawing.leaves_bind]
  have hinput : (drawInput f filled).Leaves p fun _ q =>
      (f.isArray = false ∧ Holds p.session.host.clock.date filled.values f q.session ∧
        ∀ name, name ≠ widgetName f → q.session.get? name = p.session.get? name) ∨
      (f.isArray = false → (p.session.get? (widgetName f)).isSome = true) ∧
        q.session = p.session := by
    unfold drawInput
    cases f.isArray with
    | true => exact (drawArray_still f filled p).mono fun _ q hq => .inr ⟨Bool.noConfusion, hq.2⟩
    | false =>
        refine (drawControl_holds h).mono fun _ q hq => ?_
        exact hq.imp (fun hq => ⟨rfl, hq⟩) fun hq => ⟨fun _ => hq.1, hq.2⟩
  refine hinput.mono fun _ q hq => ?_
  refine (drawMessage_still f filled q).mono fun _ r hr => ?_
  rw [hr.2]
  exact hq

/-- After some fields have been drawn, the state of a widget is what it was before, or what the
widget of one of the fields shows. -/
theorem Draws.widgets (h : Draws filled own p q) (hfits : ∀ f ∈ own, f.Fits) (name : String) :
    (∃ f ∈ own, f.isArray = false ∧ widgetName f = name ∧
        Holds p.session.host.clock.date filled.values f q.session) ∨
      q.session.get? name = p.session.get? name ∧
        ∀ f ∈ own, f.isArray = false → widgetName f = name →
          (p.session.get? name).isSome = true := by
  induction h with
  | done goes still =>
      right
      rw [still]
      exact ⟨rfl, fun f hf => absurd hf List.not_mem_nil⟩
  | @next f own p q r t goes still run rest ih =>
      obtain ⟨hf, hown⟩ := List.forall_mem_cons.1 hfits
      have hclock : r.session.host.clock.date = p.session.host.clock.date := by
        have hrun := Drawing.leaves_iff.1 (drawOwn_steady f filled q) _ _ run
        rw [(goes.trans hrun).host]
      rcases ih hown with ⟨g, hg, harray, hname, hholds⟩ | ⟨hsame, hheld⟩
      · exact .inl ⟨g, List.mem_cons_of_mem _ hg, harray, hname, hclock ▸ hholds⟩
      rcases Drawing.leaves_iff.1 (drawOwn_holds hf) _ _ run with
        ⟨harray, hholds, hothers⟩ | ⟨hfheld, hquiet⟩
      · rw [still] at hholds hothers
        by_cases hname : name = widgetName f
        · left
          obtain ⟨w, hw, hget⟩ := hholds
          refine ⟨f, List.mem_cons_self, harray, hname.symm, w, hw, ?_⟩
          rw [← hname, hsame, hname, hget]
        · right
          rw [hothers name hname] at hsame hheld
          refine ⟨hsame, List.forall_mem_cons.2 ⟨fun _ heq => ?_, hheld⟩⟩
          exact absurd heq.symm hname
      · right
        rw [hsame, hquiet, still]
        rw [hquiet, still] at hheld
        rw [still] at hfheld
        exact ⟨rfl, List.forall_mem_cons.2 ⟨fun harray hname => hname ▸ hfheld harray, hheld⟩⟩

/-! ### The fields of a form -/

variable {s : Session} {v : Visit} {page : Page} {store : Store} {raw : Entries} {schema : Value}

/-- All fields of a form but those in the templates of arrays. -/
def formFields (schema : Value) : List Value := (Schema.rootFields schema).flatMap Value.nodes

theorem fits_of_mem_formFields (hshape : Schema.HasShape schema) (hf : f ∈ formFields schema) :
    f.Fits := by
  obtain ⟨root, hroot, hf⟩ := List.mem_flatMap.1 hf
  exact Value.isInherited_fits.nodes (hshape.fits root hroot) f hf

theorem nodup_formFields {n : String}
    (h : ((Schema.rootFields schema).flatMap (Value.gathered n)).Nodup) :
    ((formFields schema).map fun f => f.getOrNull n).Nodup := by
  refine h.sublist ?_
  rw [formFields, List.map_flatMap]
  exact List.Sublist.flatMap_right _ fun root _ => Value.map_nodes_sublist_gathered n root

theorem nodup_keys (hshape : Schema.HasShape schema)
    (hkeys : ((Schema.rootFields schema).flatMap (Value.gathered "key")).Nodup) :
    ((formFields schema).map keyText).Nodup := by
  refine List.Nodup.of_map Value.text ?_
  rw [List.map_map]
  refine (List.map_congr_left fun f hf => ?_) ▸ nodup_formFields hkeys
  obtain ⟨key, -, hkey⟩ := (fits_of_mem_formFields hshape hf).key
  rw [Function.comp, Form.keyText_eq hkey, hkey]

theorem mem_formFields_of_enclosed {owners : List Value}
    (h : Form.Enclosed fs owners f) : f ∈ fs.flatMap Value.nodes := by
  induction h with
  | here mem =>
      refine List.mem_flatMap.2 ⟨_, mem, ?_⟩
      rw [Value.nodes_eq]
      exact List.mem_cons_self
  | inside mem _ _ ih =>
      refine List.mem_flatMap.2 ⟨_, mem, ?_⟩
      rw [Value.nodes_eq]
      exact List.mem_cons_of_mem _ ih

theorem mem_formFields_of_isListed {values : Entries}
    (h : IsListed limits values (Schema.rootFields schema) f) : f ∈ formFields schema := by
  obtain ⟨⟨owners, henclosed, -⟩, -⟩ := h
  exact mem_formFields_of_enclosed henclosed

theorem widgetName_injOn (hshape : Schema.HasShape schema)
    (hids : ((Schema.rootFields schema).flatMap (Value.gathered "id")).Nodup) {g : Value}
    (hf : f ∈ formFields schema) (hg : g ∈ formFields schema) (h : widgetName f = widgetName g) :
    f = g := by
  obtain ⟨i, -, hi⟩ := (fits_of_mem_formFields hshape hf).id
  obtain ⟨j, -, hj⟩ := (fits_of_mem_formFields hshape hg).id
  have hij : i = j := by
    rw [widgetName, widgetName, hi, hj] at h
    simpa [Value.asText?, String.append_right_inj] using h
  exact List.inj_on_of_nodup_map (nodup_formFields hids) hf hg (hi.trans (hij ▸ hj.symm))

/-- Drawing the preview leaves in each widget of a listed field what it shows, and nothing in any
other widget, if no widget has been there before. -/
theorem drawn_widgets (valid : Schema.problems schema = .ok [])
    (hdrawn : DrawsListed limits filled (Schema.rootFields schema) p q)
    (fresh : ∀ f ∈ formFields schema, p.session.get? (widgetName f) = none)
    (hf : f ∈ formFields schema) (hentered : isEntered f = true) :
    (IsListed limits filled.values (Schema.rootFields schema) f ∧
      Holds p.session.host.clock.date filled.values f q.session) ∨
    ¬IsListed limits filled.values (Schema.rootFields schema) f ∧
      q.session.get? (widgetName f) = none := by
  obtain ⟨hshape, hids, -, -⟩ := Schema.problems_eq_nil_iff.1 valid
  obtain ⟨own, hown, hmem⟩ := hdrawn
  have hfields : ∀ g ∈ own, g ∈ formFields schema := fun g hg =>
    mem_formFields_of_isListed ((hmem g).1 hg).1
  have hplain : f.isSection = false := by
    by_contra hsection
    cases hentered.symm.trans (isEntered_of_isSection (by simpa using hsection))
  have hlist : f.isArray = false := by
    by_contra harray
    cases hentered.symm.trans (isEntered_of_isArray (by simpa using harray))
  have hfits : ∀ g ∈ own, g.Fits := fun g hg => fits_of_mem_formFields hshape (hfields g hg)
  rcases hown.widgets hfits (widgetName f) with ⟨g, hg, -, hname, hholds⟩ | ⟨hsame, hheld⟩
  · obtain rfl := widgetName_injOn hshape hids (hfields g hg) hf hname
    exact .inl ⟨((hmem g).1 hg).1, hholds⟩
  · rw [fresh f hf] at hsame hheld
    refine .inr ⟨fun hlisted => ?_, hsame⟩
    cases hheld f ((hmem f).2 ⟨hlisted, hplain⟩) hlist rfl

/-! ### The second drawing -/

/-- A field whose value is taken over from its widget after the preview has been drawn. -/
def IsSynced (limits : LimitSource) (schema : Value) (values : Entries) (f : Value) : Prop :=
  IsListed limits values (Schema.rootFields schema) f ∧ isEntered f = true

theorem draw_of_no_fields (hstore : s.store? = some store)
    (hfields : (store.schema.getOrNull "fields").isTrue = false)
    (complete : draw.outcome s v = (.ok (), page)) : page.session = s := by
  have h : draw.Leaves ⟨s, v, []⟩ fun _ page => page.session = s := by
    unfold draw
    rw [Drawing.leaves_bind, Drawing.leaves_store]
    intro t ht
    obtain rfl := Option.some.inj (hstore.symm.trans ht)
    rw [Drawing.leaves_bind, Drawing.leaves_add]
    dsimp only
    rw [hfields, if_pos (by decide), Drawing.leaves_add]
  exact Drawing.leaves_iff.1 h () page complete

theorem Holds.taken? {values : Entries} (h : Holds today values f s) (fits : f.Fits)
    (hentered : isEntered f = true) : ∃ w,
    settle today f (valueAt values (keyText f)) = .ok w ∧ taken? s.entries f = some w := by
  obtain ⟨held, hshown, hget⟩ := h
  obtain ⟨w, hw⟩ := exists_entered fits.isMap held
  have hstate : Entries.get? s.entries (.text (widgetName f)) = some held := hget
  refine ⟨w, ?_, ?_⟩
  · rw [settle, hshown, ok_bind, hw]
  · rw [Preview.taken?, if_pos hentered, hstate, Option.bind_some, hw]
    rfl

/-- The state of the session after the preview has been drawn for the first time: what was entered
is kept, and the widgets hold what the form takes over from them. -/
structure IsDrawnFrom (limits : LimitSource) (schema : Value) (today : Date) (raw : Entries)
    (filled : Filled) (s : Session) : Prop where
  kept : s.get? "preview_values" = some (.map raw)
  synced : ∀ f ∈ formFields schema, IsSynced limits schema filled.values f →
    ∃ w, settle today f (valueAt filled.values (keyText f)) = .ok w ∧ taken? s.entries f = some w
  others : ∀ f ∈ formFields schema, ¬IsSynced limits schema filled.values f →
    taken? s.entries f = none

theorem isDrawnFrom_of_draw (hstore : s.store? = some store)
    (valid : Schema.problems store.schema = .ok [])
    (hfields : (store.schema.getOrNull "fields").isTrue = true)
    (fresh : ∀ f ∈ formFields store.schema, s.get? (widgetName f) = none)
    (apart : ∀ f ∈ formFields store.schema, widgetName f ≠ "preview_values")
    (complete : draw.outcome s v = (.ok (), page)) :
    ∃ raw filled, gather s store.schema = .ok raw ∧
      fillWith s.limits store.schema raw = .ok filled ∧ page.session.ground = s.ground ∧
      IsDrawnFrom s.limits store.schema s.host.clock.date raw filled page.session := by
  obtain ⟨hshape, -, -, -⟩ := Schema.problems_eq_nil_iff.1 valid
  obtain ⟨raw, filled, q, hraw, hfilled, hdrawn, hcontrols⟩ := draw_of_ok hstore hfields complete
  rw [Schema.forest_eq] at hdrawn
  have hlimits : (openPage s v raw).session.limits = s.limits := rfl
  have hlisted := Drawing.leaves_iff.1
    (drawFields_drawsListed hlimits fun f _ p hp => drawField_drawsListed hp) _ _ hdrawn
  obtain ⟨own, hown, hmem⟩ := hlisted
  have hsession := (Drawing.leaves_iff.1 (drawControls_still filled q) _ _ hcontrols).2
  have hfresh : ∀ f ∈ formFields store.schema,
      (openPage s v raw).session.get? (widgetName f) = none := fun f hf =>
    (get?_put_of_ne (apart f hf) s _).trans (fresh f hf)
  refine ⟨raw, filled, hraw, hfilled, ?_, ?_⟩
  · rw [hsession]
    exact hown.goesOn.ground
  rw [hsession]
  have hwidgets := fun f hf hentered =>
    drawn_widgets (f := f) valid ⟨own, hown, hmem⟩ hfresh hf hentered
  constructor
  · have hfits : ∀ f ∈ own, f.Fits := fun f hf =>
      fits_of_mem_formFields hshape (mem_formFields_of_isListed ((hmem f).1 hf).1)
    rcases hown.widgets hfits "preview_values" with ⟨f, hf, -, hname, -⟩ | ⟨hsame, -⟩
    · exact absurd hname (apart f (mem_formFields_of_isListed ((hmem f).1 hf).1))
    · exact hsame.trans (get?_put_self s _ _)
  · intro f hf hsynced
    rcases hwidgets f hf hsynced.2 with ⟨-, hholds⟩ | ⟨hnot, -⟩
    · exact hholds.taken? (fits_of_mem_formFields hshape hf) hsynced.2
    · exact absurd hsynced.1 hnot
  · intro f hf hsynced
    rw [Preview.taken?]
    split
    · rcases hwidgets f hf ‹_› with ⟨hlisted, -⟩ | ⟨-, hnone⟩
      · exact absurd ⟨hlisted, ‹_›⟩ hsynced
      · have hstate : Entries.get? q.session.entries (.text (widgetName f)) = none := hnone
        rw [hstate]
        rfl
    · rfl

/-- What the form takes over when it is drawn again. -/
theorem IsDrawnFrom.gather_eq (hshape : Schema.HasShape schema)
    (h : IsDrawnFrom limits schema today raw filled s) :
    gather s schema = .ok ((formFields schema).foldl (takeOver s.entries) raw) := by
  rw [gather, Session.previewValues, h.kept]
  exact sync_eq hshape

/-- What stands under a text when some values have been stored over defaults. -/
def standing (d values : Entries) (n : String) : Option Value :=
  Entries.get? (Entries.insertAll d values) (.text n)

/-- The values that the form starts from when it is drawn again are those of the first time, but for
the values that come back from widgets. -/
theorem IsDrawnFrom.values_after (h : IsDrawnFrom limits schema today raw filled s)
    (hshape : Schema.HasShape schema) (hkeys : ((formFields schema).map keyText).Nodup)
    (d : Entries) :
    (∀ f, IsSynced limits schema filled.values f →
      ∃ w, settle today f (valueAt filled.values (keyText f)) = .ok w ∧
        valueAt (Entries.insertAll d ((formFields schema).foldl (takeOver s.entries) raw))
          (keyText f) = w) ∧
      ∀ n, (∀ f, IsSynced limits schema filled.values f → keyText f ≠ n) →
        valueAt (Entries.insertAll d ((formFields schema).foldl (takeOver s.entries) raw)) n =
          valueAt (Entries.insertAll d raw) n := by
  have hfits : ∀ f ∈ formFields schema, f.Fits := fun f hf => fits_of_mem_formFields hshape hf
  have stores := Entries.get?_insertAll_insert d
  constructor
  · intro f hf
    have hmem := mem_formFields_of_isListed hf.1
    obtain ⟨w, hsettle, htaken⟩ := h.synced f hmem hf
    have hlook : standing d ((formFields schema).foldl (takeOver s.entries) raw) (keyText f) =
        some w := look_foldl_takeOver (standing d) stores hfits hkeys hmem htaken
    exact ⟨w, hsettle, congrArg (fun o : Option Value => o.getD .null) hlook⟩
  · intro n hn
    have hlook : standing d ((formFields schema).foldl (takeOver s.entries) raw) n =
        standing d raw n := by
      refine look_foldl_takeOver_of_ne (standing d) stores hfits fun f hf htaken => hn f ?_
      by_contra hsynced
      rw [h.others f hf hsynced] at htaken
      cases htaken
    exact congrArg (fun o : Option Value => o.getD .null) hlook

/-- The key of a field whose value comes back from its widget is not that of a computed field. -/
theorem key_ne_of_isSynced (hkeys : ((formFields schema).map keyText).Nodup) {values : Entries}
    (hf : IsSynced limits schema values f) :
    ∀ g ∈ formFields schema, Field.hasComputed g = true →
      g.getOrNull "key" ≠ .text (keyText f) := by
  intro g hg hcomputed hkey
  have hsame : g = f := List.inj_on_of_nodup_map hkeys hg (mem_formFields_of_isListed hf.1)
    (Form.keyText_eq hkey)
  have hentered := hf.2
  rw [isEntered, ← hsame, hcomputed, Bool.not_true, Bool.and_false] at hentered
  cases hentered

/-- All values that come back from the widgets of a form are settled. -/
def IsStable (limits : LimitSource) (schema : Value) (today : Date) (values : Entries) : Prop :=
  ∀ f type, IsSynced limits schema values f → f.getOrNull "type" = .text (FieldType.name type) →
    IsSettled today f (valueAt values (keyText f)) type

theorem isStable_iff (hshape : Schema.HasShape schema) {values : Entries} :
    IsStable limits schema today values ↔ ∀ f, IsSynced limits schema values f →
      settle today f (valueAt values (keyText f)) = .ok (valueAt values (keyText f)) := by
  have hsettled : ∀ f type, IsSynced limits schema values f →
      f.getOrNull "type" = .text (FieldType.name type) →
      (settle today f (valueAt values (keyText f)) = .ok (valueAt values (keyText f)) ↔
        IsSettled today f (valueAt values (keyText f)) type) := by
    intro f type hf htype
    have hfits := fits_of_mem_formFields hshape (mem_formFields_of_isListed hf.1)
    refine settle_eq_self_iff hfits.isMap ?_ (Bool.and_eq_true_iff.1 hf.2).1
    rw [htype]
    exact FieldType.ofName?_eq_some_iff.2 rfl
  constructor
  · intro h f hf
    obtain ⟨type, htype, -⟩ :=
      exists_type (fits_of_mem_formFields hshape (mem_formFields_of_isListed hf.1))
    exact (hsettled f type hf htype).2 (h f type hf htype)
  · intro h f type hf htype
    exact (hsettled f type hf htype).1 (h f hf)

/-- When the form is filled in again, the values that come back from the widgets stand in it as they
came back, and so does everything else that is not computed. -/
theorem IsDrawnFrom.filled_after (h : IsDrawnFrom limits schema today raw filled s)
    (hshape : Schema.HasShape schema) (hkeys : ((formFields schema).map keyText).Nodup)
    (hfilled : fillWith limits schema raw = .ok filled) (filled' : Filled)
    (hfilled' : fillWith limits schema ((formFields schema).foldl (takeOver s.entries) raw) =
      .ok filled') :
    (∀ f, IsSynced limits schema filled.values f →
      settle today f (valueAt filled.values (keyText f)) =
        .ok (valueAt filled'.values (keyText f))) ∧
      ∀ n, (∀ f ∈ formFields schema,
          IsSynced limits schema filled.values f ∨ Field.hasComputed f = true → keyText f ≠ n) →
        valueAt filled'.values n = valueAt filled.values n := by
  obtain ⟨hvalues, -⟩ := fillWith_eq_ok.1 hfilled
  obtain ⟨hvalues', -⟩ := fillWith_eq_ok.1 hfilled'
  constructor
  · intro f hf
    obtain ⟨d, hd, hafter⟩ := Form.resolve_keeps hshape (key_ne_of_isSynced hkeys hf) hvalues'
    obtain ⟨w, hsettle, hw⟩ := (h.values_after hshape hkeys d).1 f hf
    rw [hsettle, hafter, hw]
  · intro n hn
    have hne : ∀ g ∈ formFields schema, Field.hasComputed g = true → g.getOrNull "key" ≠ .text n :=
      fun g hg hcomputed hkey => hn g hg (.inr hcomputed) (Form.keyText_eq hkey)
    obtain ⟨d, hd, hbefore⟩ := Form.resolve_keeps hshape hne hvalues
    obtain ⟨d', hd', hafter⟩ := Form.resolve_keeps hshape hne hvalues'
    obtain rfl := Except.ok.inj (hd.symm.trans hd')
    rw [hafter, hbefore]
    refine (h.values_after hshape hkeys d).2 n fun f hf => ?_
    exact hn f (mem_formFields_of_isListed hf.1) (.inl hf)

/-- If all values come back as they were, the form is filled in again as it was. -/
theorem IsDrawnFrom.fillWith_alike (h : IsDrawnFrom limits schema today raw filled s)
    (hshape : Schema.HasShape schema) (hkeys : ((formFields schema).map keyText).Nodup)
    (hfilled : fillWith limits schema raw = .ok filled)
    (hstable : IsStable limits schema today filled.values) :
    ∃ filled', fillWith limits schema ((formFields schema).foldl (takeOver s.entries) raw) =
        .ok filled' ∧
      Agree filled'.values filled.values ∧ filled'.messages = filled.messages := by
  obtain ⟨hvalues, hmessages⟩ := fillWith_eq_ok.1 hfilled
  obtain ⟨d, hd, -⟩ := bind_eq_ok.1 hvalues
  obtain ⟨hsynced, hothers⟩ := h.values_after hshape hkeys d
  have hagree : Agree (Entries.insertAll d raw)
      (Entries.insertAll d ((formFields schema).foldl (takeOver s.entries) raw)) := by
    intro n
    by_cases hn : ∃ f, IsSynced limits schema filled.values f ∧ keyText f = n
    · obtain ⟨f, hf, rfl⟩ := hn
      obtain ⟨d', hd', hbefore⟩ := Form.resolve_keeps hshape (key_ne_of_isSynced hkeys hf) hvalues
      obtain rfl := Except.ok.inj (hd.symm.trans hd')
      obtain ⟨w, hsettle, hw⟩ := hsynced f hf
      rw [hw, ← hbefore]
      exact Except.ok.inj (((isStable_iff hshape).1 hstable f hf).symm.trans hsettle)
    · exact (hothers n fun f hf hkey => hn ⟨f, hf, hkey⟩).symm
  have halike : Alike Agree (Form.resolve limits schema raw) (Form.resolve limits schema _) :=
    Form.resolve_alike hd hagree
  obtain ⟨values', hvalues', hsame⟩ := halike.exists_ok hvalues
  refine ⟨⟨values', filled.messages⟩, fillWith_eq_ok.2 ⟨hvalues', ?_⟩, hsame.symm, rfl⟩
  rw [← hsame.report_eq hshape, hmessages]

/-- The values of a form and the messages about it, with the fields of it that are visible. -/
def SameForm (limits : LimitSource) (schema : Value) (filled filled' : Filled) : Prop :=
  Agree filled'.values filled.values ∧ filled'.messages = filled.messages ∧
    Form.visibleKeys limits schema filled'.values = Form.visibleKeys limits schema filled.values

/-- A preview that is drawn again without any input. It is the same form as before, with the same
values, messages and visible fields, exactly if every value that goes into a widget has the form
that the widget gives back. In any case the values that come back replace those that went in, and
nothing else changes but what is computed. -/
theorem redraw_alike_iff_stable (hstore : s.store? = some store)
    (valid : Schema.problems store.schema = .ok [])
    (fresh : ∀ f ∈ formFields store.schema, s.get? (widgetName f) = none)
    (apart : ∀ f ∈ formFields store.schema, widgetName f ≠ "preview_values")
    (complete : draw.outcome s v = (.ok (), page)) :
    ((store.schema.getOrNull "fields").isTrue = true → ∃ filled, fill s store.schema = .ok filled) ∧
      ∀ filled, fill s store.schema = .ok filled →
        ((∃ filled', fill page.session store.schema = .ok filled' ∧
            SameForm s.limits store.schema filled filled') ↔
          IsStable s.limits store.schema s.host.clock.date filled.values) ∧
        ∀ filled', fill page.session store.schema = .ok filled' →
          (∀ f, IsSynced s.limits store.schema filled.values f →
            settle s.host.clock.date f (valueAt filled.values (keyText f)) =
              .ok (valueAt filled'.values (keyText f))) ∧
          ∀ n, (∀ f ∈ formFields store.schema,
              IsSynced s.limits store.schema filled.values f ∨ Field.hasComputed f = true →
                keyText f ≠ n) →
            valueAt filled'.values n = valueAt filled.values n := by
  obtain ⟨hshape, -, hgathered, -⟩ := Schema.problems_eq_nil_iff.1 valid
  have hkeys := nodup_keys hshape hgathered
  cases hfields : (store.schema.getOrNull "fields").isTrue with
  | false =>
      refine ⟨Bool.noConfusion, fun filled hfill => ?_⟩
      have hnone : ∀ f, ¬IsSynced s.limits store.schema filled.values f := by
        intro f hf
        have hmem := mem_formFields_of_isListed hf.1
        rw [formFields, rootFields_of_no_fields hshape hfields] at hmem
        cases hmem
      rw [draw_of_no_fields hstore hfields complete]
      have hsame : SameForm s.limits store.schema filled filled := ⟨.refl _, rfl, rfl⟩
      refine ⟨⟨fun _ f _ hf => absurd hf (hnone f), fun _ => ⟨filled, hfill, hsame⟩⟩, ?_⟩
      intro filled' hfill'
      obtain rfl := Except.ok.inj (hfill.symm.trans hfill')
      exact ⟨fun f hf => absurd hf (hnone f), fun n _ => rfl⟩
  | true =>
      obtain ⟨raw, filled, hraw, hfilled, hground, hdrawn⟩ :=
        isDrawnFrom_of_draw hstore valid hfields fresh apart complete
      have hfill : fill s store.schema = .ok filled := by rw [fill, hraw, ok_bind, hfilled]
      have hlimits : page.session.limits = s.limits := by
        unfold Session.limits Session.config Session.host
        rw [hground]
      have hagain : fill page.session store.schema = fillWith s.limits store.schema
          ((formFields store.schema).foldl (takeOver page.session.entries) raw) := by
        rw [fill, hdrawn.gather_eq hshape, ok_bind, hlimits]
      refine ⟨fun _ => ⟨filled, hfill⟩, fun first hfirst => ?_⟩
      obtain rfl := Except.ok.inj (hfill.symm.trans hfirst)
      rw [hagain]
      have hafter := hdrawn.filled_after hshape hkeys hfilled
      refine ⟨⟨?_, fun hstable => ?_⟩, hafter⟩
      · rintro ⟨filled', hfilled', hsame, -, -⟩
        refine (isStable_iff hshape).2 fun f hf => ?_
        have hsettle := (hafter filled' hfilled').1 f hf
        rwa [hsame] at hsettle
      · obtain ⟨filled', hfilled', hsame, hmessages⟩ :=
          hdrawn.fillWith_alike hshape hkeys hfilled hstable
        exact ⟨filled', hfilled', hsame, hmessages, hsame.visibleKeys_eq _ _⟩

/-! ### A box that has to be checked -/

def consentBox : Value :=
  .ofFields [("id", .text "1"), ("key", .text "c"), ("type", .text "checkbox"),
    ("label", .text "C"), ("required", .bool true)]

def consentForm : Value := .ofFields [("version", .int 1), ("fields", .list [consentBox])]

def consentStore : Store := { Store.bare with schema := consentForm }

/-- Nothing has been drawn or entered. -/
def consentSession : Session := ⟨.inr consentStore, [], none⟩

/-- A visit without any input. -/
def watching : Visit := ⟨[], []⟩

/-- The box has no value, which is reported. -/
def consentFilled : Filled := ⟨[], [(.text "c", some Form.requiredMessage)]⟩

/-- The box is not checked, which counts as a value. -/
def consentRefilled : Filled := ⟨[(.text "c", .bool false)], [(.text "c", none)]⟩

/-- The session after the box has been drawn. -/
def consentDrawn : Session :=
  ⟨.inr consentStore, [(.text "preview_values", .map []), (.text "preview_1", .bool false)], none⟩

/-- What is shown of the box. -/
def boxShown : List Element :=
  [.subheader "👀 Preview",
    ⟨"checkbox", [], [("label", .text "C *"), ("key", .text "preview_1"), ("help", .null),
      ("disabled", .bool false)]⟩,
    .error Form.requiredMessage]

def consentPage : Page :=
  ⟨consentDrawn, watching, boxShown ++
    [.divider, .columns [1, 1], .control "button" "✅ Validate" [("key", .text "preview_validate")],
      .control "button" "🔄 Reset form" [("key", .text "preview_reset")], .expander "Values",
      .json (.map [])]⟩

theorem fillWith_consent (limits : LimitSource) :
    fillWith limits consentForm [] = .ok consentFilled := by cbv

theorem draw_consent : draw.outcome consentSession watching = (.ok (), consentPage) := by
  have hstore : consentSession.store? = some consentStore := rfl
  have hfields : (consentStore.schema.getOrNull "fields").isTrue = true := by cbv
  have hraw : gather consentSession consentForm = .ok [] := by cbv
  have hforest : Schema.forest consentForm = [Field.ofValue consentBox] := by cbv
  have hplain : consentBox.isSection = false := by cbv
  have hshown (limits : LimitSource) : Form.isShown limits consentBox [] = .ok true := by cbv
  have hown : (drawOwn consentBox consentFilled).run (openPage consentSession watching []) =
      (.ok (), ⟨consentDrawn, watching, boxShown⟩) := by cbv
  have hcontrols : (drawControls consentFilled).run ⟨consentDrawn, watching, boxShown⟩ =
      (.ok (), consentPage) := by cbv
  have hdrawn := drawFields_of_one hforest (hshown _) hplain hown
  exact draw_completes hstore hfields hraw (fillWith_consent _) hdrawn hcontrols

/-- The first time the box is drawn it is reported as missing. Drawn again without any input, it is
not. -/
theorem redraw_forgets_missing_value :
    draw.outcome consentSession watching = (.ok (), consentPage) ∧
      fill consentSession consentForm = .ok consentFilled ∧
      fill consentPage.session consentForm = .ok consentRefilled ∧
      ¬IsStable consentSession.limits consentForm consentSession.host.clock.date [] := by
  have hfirst : fill consentSession consentForm = .ok consentFilled := by
    have hraw : gather consentSession consentForm = .ok [] := by cbv
    rw [fill, hraw, ok_bind, fillWith_consent]
  have hsecond : fill consentPage.session consentForm = .ok consentRefilled := by
    have hraw : gather consentPage.session consentForm = .ok [(.text "c", .bool false)] := by cbv
    have hfilled (limits : LimitSource) :
        fillWith limits consentForm [(.text "c", .bool false)] = .ok consentRefilled := by cbv
    rw [fill, hraw, ok_bind, hfilled]
  refine ⟨draw_consent, hfirst, hsecond, fun hstable => ?_⟩
  have hstore : consentSession.store? = some consentStore := rfl
  have hvalid : Schema.problems consentStore.schema = .ok [] := by cbv
  have hnames : ∀ f ∈ formFields consentStore.schema, widgetName f = "preview_1" := by
    have hfields : formFields consentStore.schema = [consentBox] := by cbv
    rw [hfields, List.forall_mem_singleton]
    cbv
  have hfresh : ∀ f ∈ formFields consentStore.schema,
      consentSession.get? (widgetName f) = none := fun _ _ => rfl
  have hapart : ∀ f ∈ formFields consentStore.schema, widgetName f ≠ "preview_values" := by
    intro f hf
    rw [hnames f hf]
    decide
  obtain ⟨-, hagain⟩ := redraw_alike_iff_stable hstore hvalid hfresh hapart draw_consent
  obtain ⟨filled, hfilled, -, hmessages, -⟩ := (hagain consentFilled hfirst).1.2 hstable
  obtain rfl := Except.ok.inj (hsecond.symm.trans hfilled)
  cases hmessages

end Preview

end FormDesigner
