import FormDesigner.Preview.Page
import FormDesigner.Proofs.Form.Items
import FormDesigner.Proofs.Page.Drawing

/-!
# What the preview draws

Drawing fields is steady, and every field that is listed and is no section is drawn on its own: its
control or its table, and then the message about it.
-/

namespace FormDesigner

namespace Preview

open Expression (LimitSource)
open Form (IsListed isOpen_iff isListed_cons_iff isListed_singleton_iff)
open FormDesigner.Field (ofValue)
open Drawing (IsSteady IsStill still_pure still_add still_ofExcept still_get steady_sit still_limits
  still_redraw still_button still_tableEditor still_forIn)

theorem textOf_still (v : Value) (name : String) : (textOf v name).IsStill := still_ofExcept _

theorem markedLabel_still (v : Value) : (markedLabel v).IsStill :=
  (textOf_still v _).bind fun _ => still_pure _

theorem hint_still (v : Value) : (hint v).IsStill :=
  .ite ((textOf_still v _).bind fun _ => still_add _) (still_pure _)

theorem control_still (v : Value) (key : String) : (control v key).IsStill :=
  (markedLabel_still v).bind fun _ => (still_ofExcept _).bind fun _ => still_pure _

theorem drawControl_steady (v : Value) (filled : Filled) : (drawControl v filled).IsSteady := by
  refine (still_ofExcept _).steady.bind fun key => still_get.steady.bind fun p => ?_
  have hrest : (do Drawing.add (← control v key)).IsSteady :=
    ((control_still v key).bind fun _ => still_add _).steady
  refine .ite ?_ hrest
  refine (still_ofExcept _).steady.bind fun held => (still_ofExcept _).steady.bind fun shown => ?_
  refine IsSteady.bind ?_ fun _ => hrest
  exact steady_sit fun s => (Work.ends_modify _).2 rfl

/-- An array that is not drawn again leaves the session alone, since only a change of its items is
kept there. -/
theorem drawArray_still (v : Value) (filled : Filled) : (drawArray v filled).IsStill := by
  refine (still_ofExcept _).bind fun key => (still_ofExcept _).bind fun held => ?_
  refine (markedLabel_still v).bind fun label => (still_add _).bind fun _ => ?_
  refine (hint_still v).bind fun _ => ?_
  refine (still_ofExcept _).bind fun columns => (still_ofExcept _).bind fun table => ?_
  refine (textOf_still v _).bind fun id => (still_tableEditor _ _).bind fun edited => ?_
  refine (still_forIn (fun i u => ?_) _ _).bind fun _ => .ite still_redraw (still_pure _)
  refine (textOf_still v _).bind fun key => (still_forIn (fun m u => ?_) _ _).bind fun _ => ?_
  · exact (still_add _).bind fun _ => still_pure _
  · exact still_pure _

theorem drawMessage_still (v : Value) (filled : Filled) : (drawMessage v filled).IsStill := by
  refine (still_ofExcept _).bind fun key => ?_
  split
  · exact still_add _
  · exact still_pure _

/-- The control or the table of a field. -/
def drawInput (v : Value) (filled : Filled) : Drawing Unit :=
  if v.isArray then drawArray v filled else drawControl v filled

theorem drawInput_steady (v : Value) (filled : Filled) : (drawInput v filled).IsSteady :=
  .ite (drawArray_still v filled).steady (drawControl_steady v filled)

/-- A field that is no section, with the message about it. -/
def drawOwn (v : Value) (filled : Filled) : Drawing Unit := do
  drawInput v filled
  drawMessage v filled

theorem drawOwn_steady (v : Value) (filled : Filled) : (drawOwn v filled).IsSteady :=
  (drawInput_steady v filled).bind fun _ => (drawMessage_still v filled).steady

/-- What a section begins with. -/
def drawHeading (v : Value) : Drawing Unit := do
  Drawing.add (.markdown ("#### " ++ (← textOf v "label")))
  hint v
  Drawing.add ⟨"container", [], [("border", .bool true)]⟩

theorem drawHeading_still (v : Value) : (drawHeading v).IsStill :=
  (textOf_still v _).bind fun _ => (still_add _).bind fun _ => (hint_still v).bind fun _ =>
    still_add _

theorem drawField_eq (filled : Filled) (v : Value) (children : List Field)
    (template : Option Field) :
    drawField filled (.node v children template) = (do
      let limits ← Drawing.limits
      if ← Drawing.ofExcept (Form.isShown limits v filled.values) then
        if v.isSection then
          drawHeading v
          drawFields filled children
        else drawOwn v filled
      else return ()) := by
  rw [drawField]
  refine bind_congr fun limits => bind_congr fun b => ?_
  split
  · split
    · simp only [drawHeading, bind_assoc]
    · unfold drawOwn drawInput
      split <;> rfl
  · rfl

mutual

theorem drawField_steady (filled : Filled) : ∀ f, (drawField filled f).IsSteady
  | .node v children template => by
      rw [drawField_eq]
      refine still_limits.steady.bind fun l => (still_ofExcept _).steady.bind fun b => ?_
      refine .ite (.ite ?_ (drawOwn_steady v filled)) (still_pure _).steady
      exact (drawHeading_still v).steady.bind fun _ => drawFields_steady filled children

theorem drawFields_steady (filled : Filled) : ∀ fs, (drawFields filled fs).IsSteady
  | [] => by
      rw [drawFields]
      exact (still_pure _).steady
  | f :: fs => by
      rw [drawFields]
      exact (drawField_steady filled f).bind fun _ => drawFields_steady filled fs

end

/-! ### Listed fields -/

variable {filled : Filled} {limits : LimitSource} {f v : Value} {fs own own' : List Value}
variable {p q r : Page}

/-- Some fields are drawn on their own, one after the other. What is drawn between them leaves the
session alone. -/
inductive Draws (filled : Filled) : List Value → Page → Page → Prop
  | done {p q : Page} (goes : p.GoesOn q) (still : q.session = p.session) : Draws filled [] p q
  | next {f : Value} {own : List Value} {p q r t : Page} (goes : p.GoesOn q)
      (still : q.session = p.session) (run : (drawOwn f filled).run q = (.ok (), r))
      (rest : Draws filled own r t) : Draws filled (f :: own) p t

theorem Draws.of_run (h : (drawOwn f filled).run p = (.ok (), q)) : Draws filled [f] p q :=
  .next (.refl p) rfl h (.done (.refl q) rfl)

theorem Draws.after (goes : p.GoesOn q) (still : q.session = p.session)
    (h : Draws filled own q r) : Draws filled own p r := by
  cases h with
  | done goes' still' => exact .done (goes.trans goes') (still'.trans still)
  | next goes' still' run rest => exact .next (goes.trans goes') (still'.trans still) run rest

theorem Draws.append (h : Draws filled own p q) (h' : Draws filled own' q r) :
    Draws filled (own ++ own') p r := by
  induction h with
  | done goes still => exact h'.after goes still
  | next goes still run _ ih => exact .next goes still run (ih h')

theorem Draws.goesOn (h : Draws filled own p q) : p.GoesOn q := by
  induction h with
  | done goes _ => exact goes
  | @next f _ _ q _ _ goes _ run _ ih =>
      exact (goes.trans (Drawing.leaves_iff.1 (drawOwn_steady f filled q) _ _ run)).trans ih

/-- Exactly the listed fields that are no sections are drawn on their own. -/
def DrawsListed (limits : LimitSource) (filled : Filled) (fs : List Value) (p q : Page) : Prop :=
  ∃ own, Draws filled own p q ∧
    ∀ f, f ∈ own ↔ IsListed limits filled.values fs f ∧ f.isSection = false

theorem drawFields_drawsListed (hlimits : p.session.limits = limits)
    (hfs : ∀ f ∈ fs, ∀ p : Page, p.session.limits = limits →
      (drawField filled (ofValue f)).Leaves p fun _ q => DrawsListed limits filled [f] p q) :
    (drawFields filled (fs.map ofValue)).Leaves p fun _ q => DrawsListed limits filled fs p q := by
  induction fs generalizing p with
  | nil =>
      rw [List.map_nil, drawFields, Drawing.leaves_pure]
      refine ⟨[], .done (.refl p) rfl, fun f => ⟨fun hf => absurd hf List.not_mem_nil, ?_⟩⟩
      rintro ⟨⟨hopen, -⟩, -⟩
      simpa using isOpen_iff.1 hopen
  | cons f fs ih =>
      obtain ⟨hf, hfs⟩ := List.forall_mem_cons.1 hfs
      rw [List.map_cons, drawFields, Drawing.leaves_bind]
      refine (hf p hlimits).mono fun _ q hq => ?_
      obtain ⟨own, hown, hmem⟩ := hq
      refine (ih (hown.goesOn.limits.trans hlimits) hfs).mono fun _ r hr => ?_
      obtain ⟨own', hown', hmem'⟩ := hr
      refine ⟨own ++ own', hown.append hown', fun g => ?_⟩
      have hcons : IsListed limits filled.values (f :: fs) g ↔ _ := isListed_cons_iff
      rw [List.mem_append, hmem, hmem', hcons, or_and_right]

/-- By induction on what the field owns. A hidden field lists nothing; a section lists what its
children list. -/
theorem drawField_drawsListed (hlimits : p.session.limits = limits) :
    (drawField filled (ofValue v)).Leaves p fun _ q => DrawsListed limits filled [v] p q := by
  induction v using Value.owned_induction generalizing p with
  | node v ih _ =>
      rw [Field.ofValue_eq, drawField_eq, Drawing.leaves_bind, Drawing.leaves_limits, hlimits,
        Drawing.leaves_bind, Drawing.leaves_ofExcept]
      intro shown hshown
      unfold DrawsListed
      simp only [isListed_singleton_iff, hshown]
      cases shown with
      | false =>
          rw [if_neg (by decide), Drawing.leaves_pure]
          refine ⟨[], .done (.refl p) rfl, fun f => ⟨fun hf => absurd hf List.not_mem_nil, ?_⟩⟩
          rintro ⟨⟨h, -⟩, -⟩
          cases h
      | true =>
          rw [if_pos rfl]
          by_cases hsection : v.isSection = true
          · rw [if_pos hsection, Drawing.leaves_bind]
            refine (drawHeading_still v p).mono fun _ q hq => ?_
            refine (drawFields_drawsListed (hq.1.limits.trans hlimits) ih).mono fun _ r hr => ?_
            obtain ⟨own, hown, hmem⟩ := hr
            refine ⟨own, hown.after hq.1 hq.2, fun f => ?_⟩
            rw [hmem]
            constructor
            · rintro ⟨hf, hplain⟩
              exact ⟨⟨rfl, .inr ⟨hsection, hf⟩⟩, hplain⟩
            · rintro ⟨⟨-, rfl | ⟨-, hf⟩⟩, hplain⟩
              · cases hsection.symm.trans hplain
              · exact ⟨hf, hplain⟩
          · rw [if_neg hsection]
            refine (Drawing.leaves_self _ p).mono fun u q hrun => ?_
            refine ⟨[v], .of_run hrun, fun f => ?_⟩
            rw [List.mem_singleton]
            constructor
            · rintro rfl
              exact ⟨⟨rfl, .inl rfl⟩, by simpa using hsection⟩
            · rintro ⟨⟨-, rfl | ⟨h, -⟩⟩, -⟩
              · rfl
              · exact absurd h hsection

/-- A field is drawn on its own, in some part of a page. -/
def IsDrawn (filled : Filled) (f : Value) (page : Page) : Prop :=
  ∃ p q, (drawOwn f filled).run p = (.ok (), q) ∧ q.shown <+: page.shown

theorem Draws.isDrawn (h : Draws filled own p q) (hf : f ∈ own) : IsDrawn filled f q := by
  induction h with
  | done _ _ => cases hf
  | @next g own p q r t goes still run rest ih =>
      rcases List.mem_cons.1 hf with rfl | hf
      · exact ⟨q, r, run, rest.goesOn.shown⟩
      · exact ih hf

theorem IsDrawn.mono (h : IsDrawn filled f p) (hpq : p.GoesOn q) : IsDrawn filled f q := by
  obtain ⟨p', q', hrun, hq'⟩ := h
  exact ⟨p', q', hrun, hq'.trans hpq.shown⟩

theorem DrawsListed.isDrawn (h : DrawsListed limits filled fs p q)
    (hf : IsListed limits filled.values fs f) (hplain : f.isSection = false) :
    IsDrawn filled f q := by
  obtain ⟨own, hown, hmem⟩ := h
  exact hown.isDrawn ((hmem f).2 ⟨hf, hplain⟩)

/-! ### Below the fields -/

/-- The message that says how many messages there are. -/
def countError (n : Nat) : Element := .error ("❌ " ++ toString n ++ " field(s) need attention")

/-- The answer to the button that checks the form. -/
def drawVerdict (messages : Form.Report) : Drawing Unit :=
  if messages.failing.isEmpty then Drawing.add (.success "✅ All visible fields are valid")
  else Drawing.add (countError messages.failing.length)

theorem drawVerdict_still (messages : Form.Report) : (drawVerdict messages).IsStill :=
  .ite (still_add _) (still_add _)

/-- What is below the answer: the button that empties the form, and its values. -/
def drawReset (values : Entries) : Drawing Unit := do
  if ← Drawing.button (.control "button" "🔄 Reset form" [("key", .text "preview_reset")]) then
    Drawing.sit (modify Session.withoutPreview)
    Drawing.redraw
  Drawing.add (.expander "Values")
  Drawing.add (.json (.map values))

theorem drawReset_still (values : Entries) : (drawReset values).IsStill := by
  have hrest : (do
      Drawing.add (.expander "Values")
      Drawing.add (.json (.map values))).IsStill := (still_add _).bind fun _ => still_add _
  refine (still_button _).bind fun _ => .ite ?_ hrest
  rw [← bind_assoc]
  exact still_redraw.bind fun _ => hrest

theorem drawControls_eq (filled : Filled) :
    drawControls filled = (do
      Drawing.add .divider
      Drawing.add (.columns [1, 1])
      if ← Drawing.button (.control "button" "✅ Validate" [("key", .text "preview_validate")]) then
        drawVerdict filled.messages
      drawReset filled.values) := by
  unfold drawControls
  refine bind_congr fun _ => bind_congr fun _ => bind_congr fun pressed => ?_
  cases pressed with
  | false => rfl
  | true =>
      rw [if_pos rfl, if_pos rfl, drawVerdict]
      dsimp only
      split <;> rfl

theorem drawControls_still (filled : Filled) : (drawControls filled).IsStill := by
  rw [drawControls_eq]
  refine (still_add _).bind fun _ => (still_add _).bind fun _ => ?_
  refine (still_button _).bind fun _ => .ite ?_ (drawReset_still _)
  exact (drawVerdict_still _).bind fun _ => drawReset_still _

/-! ### The whole preview -/

theorem rootFields_of_no_fields {schema : Value} (hshape : Schema.HasShape schema)
    (hfields : (schema.getOrNull "fields").isTrue = false) : Schema.rootFields schema = [] := by
  obtain hlist | hlist | hlist := Value.itemsOf?_eq_some hshape.fields_eq <;>
  · rw [hlist] at hfields
    simpa [Value.isTrue] using hfields

/-- What has been entered in a session, after what its widgets hold has been taken over. -/
def gather (s : Session) (schema : Value) : Except Failure Entries := do
  sync s.entries (schema.getOrNull "fields") (← Sitting.enteredValues s.previewValues)

/-- The form with what has been entered. -/
def fillWith (limits : LimitSource) (schema : Value) (raw : Entries) : Except Failure Filled := do
  let values ← Form.resolve limits schema raw
  return ⟨values, ← Form.report limits schema values⟩

theorem fillWith_eq_ok {schema : Value} {raw : Entries} :
    fillWith limits schema raw = .ok filled ↔ Form.resolve limits schema raw = .ok filled.values ∧
      Form.report limits schema filled.values = .ok filled.messages := by
  rw [fillWith, Result.bind_eq_ok]
  constructor
  · rintro ⟨values, hvalues, h⟩
    obtain ⟨messages, hmessages, h⟩ := Result.bind_eq_ok.1 h
    obtain rfl := Except.ok.inj h
    exact ⟨hvalues, hmessages⟩
  · rintro ⟨hvalues, hmessages⟩
    refine ⟨filled.values, hvalues, ?_⟩
    rw [hmessages]
    rfl

/-- The form that the preview draws in a session. -/
def fill (s : Session) (schema : Value) : Except Failure Filled := do
  fillWith s.limits schema (← gather s schema)

/-- The page on which the preview draws the fields. -/
def openPage (s : Session) (v : Visit) (raw : Entries) : Page :=
  ⟨s.put "preview_values" (.map raw), v, [.subheader "👀 Preview"]⟩

variable {s : Session} {v : Visit} {page : Page} {store : Store} {raw : Entries}

/-- The preview of a form that has fields is drawn from the form filled in. -/
theorem draw_of_ok (hstore : s.store? = some store)
    (hfields : (store.schema.getOrNull "fields").isTrue = true)
    (complete : draw.outcome s v = (.ok (), page)) :
    ∃ raw filled q, gather s store.schema = .ok raw ∧
      fillWith s.limits store.schema raw = .ok filled ∧
      (drawFields filled (Schema.forest store.schema)).run (openPage s v raw) = (.ok (), q) ∧
      (drawControls filled).run q = (.ok (), page) := by
  have h : draw.Leaves ⟨s, v, []⟩ fun _ page => ∃ raw filled q, gather s store.schema = .ok raw ∧
      fillWith s.limits store.schema raw = .ok filled ∧
      (drawFields filled (Schema.forest store.schema)).run (openPage s v raw) = (.ok (), q) ∧
      (drawControls filled).run q = (.ok (), page) := by
    unfold draw
    rw [Drawing.leaves_bind, Drawing.leaves_store]
    intro t ht
    obtain rfl := Option.some.inj (hstore.symm.trans ht)
    rw [Drawing.leaves_bind, Drawing.leaves_add]
    dsimp only
    rw [hfields, if_neg (by decide), Drawing.leaves_bind, Drawing.leaves_sit, Sitting.previewValues,
      Work.ends_bind, Work.ends_get, Work.andThen_ok, Work.ends_ofExcept]
    intro entered hentered
    rw [Drawing.leaves_bind, Drawing.leaves_get, Drawing.leaves_bind, Drawing.leaves_ofExcept]
    intro raw hraw
    rw [Drawing.leaves_bind, Drawing.leaves_sit, Work.ends_modify]
    intro _ _
    rw [Drawing.leaves_bind, Drawing.leaves_limits, Drawing.leaves_bind, Drawing.leaves_ofExcept]
    intro values hvalues
    rw [Drawing.leaves_bind, Drawing.leaves_ofExcept]
    intro messages hmessages
    rw [Drawing.leaves_bind]
    refine (Drawing.leaves_self _ _).mono fun _ q hq => ?_
    refine (Drawing.leaves_self _ _).mono fun _ page hpage => ?_
    refine ⟨raw, ⟨values, messages⟩, q, ?_, ?_, hq, hpage⟩
    · rw [gather, hentered]
      exact hraw
    · exact fillWith_eq_ok.2 ⟨hvalues, hmessages⟩
  exact Drawing.leaves_iff.1 h () page complete

/-- The preview is drawn if the form can be filled in and its parts can be drawn. -/
theorem draw_completes {filled : Filled} {q : Page} (hstore : s.store? = some store)
    (hfields : (store.schema.getOrNull "fields").isTrue = true)
    (hraw : gather s store.schema = .ok raw)
    (hfilled : fillWith s.limits store.schema raw = .ok filled)
    (hdrawn : (drawFields filled (Schema.forest store.schema)).run (openPage s v raw) = (.ok (), q))
    (hcontrols : (drawControls filled).run q = (.ok (), page)) :
    draw.outcome s v = (.ok (), page) := by
  obtain ⟨entered, hentered, hraw⟩ := Result.bind_eq_ok.1 hraw
  obtain ⟨hvalues, hmessages⟩ := fillWith_eq_ok.1 hfilled
  have hadd : (Drawing.add (.subheader "👀 Preview")).run ⟨s, v, []⟩ =
      (.ok (), ⟨s, v, [.subheader "👀 Preview"]⟩) := rfl
  have hentered' : Sitting.previewValues.outcome s = (.ok entered, s) := by
    rw [Sitting.previewValues, Work.outcome_bind]
    change (Work.ofExcept (Sitting.enteredValues s.previewValues)).outcome s = _
    rw [Work.outcome_ofExcept, hentered]
  have hkept : (modify fun s : Session => s.put "preview_values" (.map raw) : Sitting Unit).outcome
      s = (.ok (), s.put "preview_values" (.map raw)) := rfl
  have hlimits (p : Page) : Drawing.limits.run p = (.ok p.session.limits, p) := rfl
  have hget (p : Page) : (get : Drawing Page).run p = (.ok p, p) := rfl
  rw [Drawing.outcome, draw, Drawing.run_bind_of_ok _ (Drawing.run_store hstore),
    Drawing.run_bind_of_ok _ hadd]
  dsimp only
  rw [hfields, if_neg (by decide), Drawing.run_bind_of_ok _ (Drawing.run_sit_of_ok hentered'),
    Drawing.run_bind_of_ok _ (hget _), Drawing.run_bind_of_ok _ (Drawing.run_ofExcept hraw _),
    Drawing.run_bind_of_ok _ (Drawing.run_sit_of_ok hkept), Drawing.run_bind_of_ok _ (hlimits _)]
  have hsame : (s.put "preview_values" (.map raw)).limits = s.limits := rfl
  dsimp only
  rw [hsame, Drawing.run_bind_of_ok _ (Drawing.run_ofExcept hvalues _),
    Drawing.run_bind_of_ok _ (Drawing.run_ofExcept hmessages _)]
  exact (Drawing.run_bind_of_ok _ hdrawn).trans hcontrols

/-- A form of one field that is shown and is no section is drawn like the field. -/
theorem drawFields_of_one {schema f : Value} {filled : Filled} {p q : Page}
    (hforest : Schema.forest schema = [ofValue f])
    (hshown : Form.isShown p.session.limits f filled.values = .ok true)
    (hplain : f.isSection = false) (hown : (drawOwn f filled).run p = (.ok (), q)) :
    (drawFields filled (Schema.forest schema)).run p = (.ok (), q) := by
  have hlimits : Drawing.limits.run p = (.ok p.session.limits, p) := rfl
  have hfield : (drawField filled (ofValue f)).run p = (.ok (), q) := by
    rw [Field.ofValue_eq, drawField_eq, Drawing.run_bind_of_ok _ hlimits,
      Drawing.run_bind_of_ok _ (Drawing.run_ofExcept hshown _), if_pos rfl, hplain,
      if_neg (by decide)]
    exact hown
  rw [hforest, drawFields, Drawing.run_bind_of_ok _ hfield, drawFields]
  rfl

end Preview

end FormDesigner
