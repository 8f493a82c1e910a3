import FormDesigner.Proofs.Form.Items

/-!
# Values that agree

Where a key that is absent counts as null, values may be the same under every key without being the
same entries. A form cannot tell them apart: it works out the same values from them, shows the same
fields and finds the same to be wrong.
-/

namespace FormDesigner

namespace Form

open Expression (LimitSource valueAt)
open FormDesigner.Field (ofValue)
open Result

/-- Values that are the same under all keys. -/
def Agree (c c' : Entries) : Prop := ∀ key, valueAt c key = valueAt c' key

variable {c c' : Entries} {limits : LimitSource} {v : Value} {k : String}

theorem Agree.refl (c : Entries) : Agree c c := fun _ => rfl

theorem Agree.symm (h : Agree c c') : Agree c' c := fun key => (h key).symm

theorem Agree.beside (h : Agree c c') (k : String) : AgreeBeside k c c' := fun key _ => h key

/-- Values that agree beside any key agree, since any key is beside some other. -/
theorem agree_of_beside (h : ∀ k, AgreeBeside k c c') : Agree c c' := by
  intro key
  obtain ⟨k, hk⟩ := Infinite.exists_notMem_finset {key}
  exact h k key fun heq => hk (Finset.mem_singleton.2 heq.symm)

theorem Agree.insert (h : Agree c c') (key w : Value) :
    Agree (Entries.insert c key w) (Entries.insert c' key w) :=
  agree_of_beside fun k => (h.beside k).insert key w

theorem Agree.insertAll (h : Agree c c') (es : Entries) :
    Agree (Entries.insertAll c es) (Entries.insertAll c' es) :=
  agree_of_beside fun k => (h.beside k).insertAll es

/-! ### A form cannot tell them apart -/

/-- Some key is neither that of any of the fields nor read by their conditions. -/
theorem exists_blind (limits : LimitSource) (fs : List Value) :
    ∃ k, ∀ f ∈ fs, IsBlind limits k f := by
  have hread (source : Value) : ∃ keys : List String, ∀ k, k ∉ keys → Ignores limits k source := by
    cases hkeys : Expression.referencedKeys limits source with
    | error e =>
        refine ⟨[], fun k _ keys h => ?_⟩
        cases hkeys.symm.trans h
    | ok keys =>
        refine ⟨keys, fun k hk keys' h => ?_⟩
        obtain rfl := Except.ok.inj (hkeys.symm.trans h)
        exact hk
  have hall : ∃ used : List String, ∀ k, k ∉ used → ∀ f ∈ fs, IsBlind limits k f := by
    induction fs with
    | nil => exact ⟨[], fun k _ => List.forall_mem_nil _⟩
    | cons f fs ih =>
        obtain ⟨used, hused⟩ := ih
        obtain ⟨keys, hkeys⟩ := hread (f.getOrNull "visibleWhen")
        refine ⟨keyText f :: (keys ++ used), fun k hk => ?_⟩
        rw [List.mem_cons, List.mem_append, not_or, not_or] at hk
        refine List.forall_mem_cons.2 ⟨⟨?_, hkeys k hk.2.1⟩, hused k hk.2.2⟩
        exact fun hkey => hk.1 (keyText_eq hkey).symm
  obtain ⟨used, hused⟩ := hall
  obtain ⟨k, hk⟩ := Infinite.exists_notMem_finset used.toFinset
  exact ⟨k, hused k fun h => hk (List.mem_toFinset.2 h)⟩

theorem Agree.evaluateText_eq (h : Agree c c') (limits : LimitSource) (source : Value) :
    Expression.evaluateText limits source c = Expression.evaluateText limits source c' :=
  Expression.evaluateText_congr fun _ _ key _ => h key

theorem Agree.isShown_eq (h : Agree c c') (limits : LimitSource) (v : Value) :
    isShown limits v c = isShown limits v c' := by
  rw [isShown, isShown, Expression.isVisible, Expression.isVisible, h.evaluateText_eq]

theorem Agree.computed?_eq (h : Agree c c') (limits : LimitSource) (source : Value) :
    Expression.computed? limits source c = Expression.computed? limits source c' := by
  rw [Expression.computed?, Expression.computed?, h.evaluateText_eq]

/-- Spots of a form with values that agree are the same, with values that agree. -/
theorem Agree.report_eq {schema : Value} (h : Agree c c') (hshape : Schema.HasShape schema)
    (limits : LimitSource) : report limits schema c = report limits schema c' := by
  obtain ⟨k, hk⟩ := exists_blind limits ((Schema.rootFields schema).flatMap Value.owned)
  have hwalks : List.Forall₂ (fun s t => s.name = t.name ∧ s.message? limits = t.message? limits)
      (spots limits schema c) (spots limits schema c') := by
    unfold spots roots
    refine List.rel_flatMap (R := fun s t => ∃ f ∈ Schema.rootFields schema,
      s = ⟨f, c, keyText f, ""⟩ ∧ t = ⟨f, c', keyText f, ""⟩) ?_ ?_
    · rw [List.forall₂_map_left_iff, List.forall₂_map_right_iff]
      exact List.forall₂_same.2 fun f hf => ⟨f, hf, rfl, rfl⟩
    · rintro _ _ ⟨f, hf, rfl, rfl⟩
      have hmatches : Spot.Matches k "" "" ⟨f, c, keyText f, ""⟩ ⟨f, c', keyText f, ""⟩ :=
        ⟨rfl, h.beside k, ⟨keyText f, by simp, by simp⟩, ⟨"", by simp, by simp⟩⟩
      have hblind : ∀ g ∈ f.owned, IsBlind limits k g := fun g hg =>
        hk g (List.mem_flatMap.2 ⟨f, hf, hg⟩)
      refine (hmatches.walk hblind (hshape.fits f hf)).imp ?_
      rintro s t ⟨hst, hmessage⟩
      obtain ⟨rest, hs, ht⟩ := hst.name
      exact ⟨hs.trans ht.symm, hmessage.symm⟩
  rw [Form.report_eq hshape, Form.report_eq hshape]
  generalize spots limits schema c = ss at hwalks
  generalize spots limits schema c' = ts at hwalks
  generalize ([] : Report) = r
  induction hwalks generalizing r with
  | nil => rfl
  | cons hst _ ih =>
      rw [List.foldlM_cons, List.foldlM_cons, noteAt, noteAt, hst.1, hst.2]
      exact bind_congr fun r => ih r

mutual

theorem Agree.visibleIn_eq (h : Agree c c') (limits : LimitSource) :
    ∀ (f : Field) (keys : List Value),
      visibleIn limits c keys f = visibleIn limits c' keys f
  | .node v children template, keys => by
      rw [visibleIn, visibleIn, h.isShown_eq]
      simp only [Agree.visibleAll_eq h limits children]

theorem Agree.visibleAll_eq (h : Agree c c') (limits : LimitSource) :
    ∀ (fs : List Field) (keys : List Value),
      visibleAll limits c keys fs = visibleAll limits c' keys fs
  | [], keys => by rw [visibleAll, visibleAll]
  | f :: fs, keys => by
      rw [visibleAll, visibleAll, Agree.visibleIn_eq h limits f]
      simp only [Agree.visibleAll_eq h limits fs]

end

theorem Agree.visibleKeys_eq (h : Agree c c') (limits : LimitSource) (schema : Value) :
    visibleKeys limits schema c = visibleKeys limits schema c' := by
  rw [visibleKeys, visibleKeys]
  simp only [h.visibleAll_eq]

/-! ### Computed values -/

/-- The values with that of one field worked out, if it is computed. -/
def workOut (limits : LimitSource) (v : Value) (values : Entries) : Except Failure Entries :=
  if Field.hasComputed v then do
    match ← Expression.computed? limits (v.getOrNull "computed") values with
    | some w => store values (← v.entry "key") w
    | none => pure values
  else pure values

theorem computeField_eq (values : Entries) (children : List Field) (template : Option Field) :
    computeField limits values (.node v children template) = (do
      Field.demandMap v
      let values ← workOut limits v values
      if v.isSection then
        Field.demandItems (v.getOrNull "children")
        computeAll limits values children
      else return values) := by
  rw [computeField, workOut]
  refine bind_congr fun _ => ?_
  dsimp only
  cases Field.hasComputed v with
  | false => rfl
  | true =>
      rw [if_pos rfl, if_pos rfl, bind_assoc]
      refine bind_congr fun w => ?_
      cases w with
      | none => rfl
      | some w => exact (bind_assoc _ _ _).symm

theorem Agree.store (h : Agree c c') (key w : Value) :
    Alike Agree (Form.store c key w) (Form.store c' key w) := by
  unfold Form.store
  split
  · exact .ok (h.insert key w)
  · exact .error _

theorem Agree.workOut (h : Agree c c') (limits : LimitSource) (v : Value) :
    Alike Agree (Form.workOut limits v c) (Form.workOut limits v c') := by
  unfold Form.workOut
  rw [h.computed?_eq]
  split
  · refine .after _ fun w => ?_
    cases w with
    | none => exact .ok h
    | some w => exact .after _ fun key => h.store key w
  · exact .ok h

mutual

/-- Where values agree, the same is worked out from them. -/
theorem computeField_alike (limits : LimitSource) : ∀ (f : Field) {c c' : Entries}, Agree c c' →
    Alike Agree (computeField limits c f) (computeField limits c' f)
  | .node v children template, c, c', h => by
      rw [computeField_eq, computeField_eq]
      refine .after _ fun _ => (h.workOut limits v).bind fun d d' hd => ?_
      split
      · exact .after _ fun _ => computeAll_alike limits children hd
      · exact .ok hd

theorem computeAll_alike (limits : LimitSource) : ∀ (fs : List Field) {c c' : Entries},
    Agree c c' → Alike Agree (computeAll limits c fs) (computeAll limits c' fs)
  | [], c, c', h => by
      rw [computeAll, computeAll]
      exact .ok h
  | f :: fs, c, c', h => by
      rw [computeAll, computeAll]
      exact (computeField_alike limits f h).bind fun d d' hd => computeAll_alike limits fs hd

end

/-! ### What is not computed -/

theorem getOrNull_of_entry {n : String} {w : Value} (h : v.entry n = .ok w) :
    v.getOrNull n = w := by
  rw [Value.getOrNull, Value.entry_eq_ok_iff.1 h, Option.getD_some]

theorem workOut_keeps (hkey : Field.hasComputed v = true → v.getOrNull "key" ≠ .text k)
    (hc : workOut limits v c = .ok c') : valueAt c' k = valueAt c k := by
  unfold workOut at hc
  split at hc
  · obtain ⟨w, -, hc⟩ := bind_eq_ok.1 hc
    cases w with
    | none => exact congrArg (valueAt · k) (Except.ok.inj hc).symm
    | some w =>
        obtain ⟨key, hentry, hc⟩ := bind_eq_ok.1 hc
        unfold store at hc
        split at hc
        · obtain rfl := Except.ok.inj hc
          have hcomputed : Field.hasComputed v = true := ‹_›
          exact valueAt_insert_of_ne (getOrNull_of_entry hentry ▸ hkey hcomputed) c
        · cases hc
  · exact congrArg (valueAt · k) (Except.ok.inj hc).symm

theorem computeAll_keeps {fs : List Value}
    (hfs : ∀ f ∈ fs, ∀ {c c' : Entries}, computeField limits c (ofValue f) = .ok c' →
      valueAt c' k = valueAt c k)
    (hc : computeAll limits c (fs.map ofValue) = .ok c') : valueAt c' k = valueAt c k := by
  induction fs generalizing c with
  | nil =>
      rw [List.map_nil, computeAll] at hc
      rw [Except.ok.inj hc]
  | cons f fs ih =>
      obtain ⟨hf, hfs⟩ := List.forall_mem_cons.1 hfs
      rw [List.map_cons, computeAll] at hc
      obtain ⟨d, hd, hc⟩ := bind_eq_ok.1 hc
      exact (ih hfs hc).trans (hf hd)

/-- Working out a field leaves the values of all keys as they are that no computed field has. By
induction on what the field owns. -/
theorem computeField_keeps
    (hkeys : ∀ w ∈ v.nodes, Field.hasComputed w = true → w.getOrNull "key" ≠ .text k)
    (hc : computeField limits c (ofValue v) = .ok c') : valueAt c' k = valueAt c k := by
  induction v using Value.owned_induction generalizing c c' with
  | node v ih _ =>
      rw [Value.nodes_eq] at hkeys
      obtain ⟨hself, hchildren⟩ := List.forall_mem_cons.1 hkeys
      rw [Field.ofValue_eq, computeField_eq] at hc
      obtain ⟨-, -, hc⟩ := bind_eq_ok.1 hc
      obtain ⟨d, hd, hc⟩ := bind_eq_ok.1 hc
      rw [← workOut_keeps hself hd]
      split at hc
      · obtain ⟨-, -, hc⟩ := bind_eq_ok.1 hc
        refine computeAll_keeps ?_ hc
        intro f hf c c' hc
        exact ih f hf (fun w hw => hchildren w (List.mem_flatMap.2 ⟨f, hf, hw⟩)) hc
      · rw [Except.ok.inj hc]

/-- Completing the values of a form leaves those as they are that are given or have a default, under
the key of no computed field. -/
theorem resolve_keeps {schema : Value} {values : Entries} (hshape : Schema.HasShape schema)
    (hkeys : ∀ w ∈ (Schema.rootFields schema).flatMap Value.nodes, Field.hasComputed w = true →
      w.getOrNull "key" ≠ .text k)
    (hc : resolve limits schema values = .ok c) :
    ∃ d, defaults schema = .ok d ∧ valueAt c k = valueAt (Entries.insertAll d values) k := by
  obtain ⟨d, hd, hc⟩ := bind_eq_ok.1 hc
  rw [withComputed, rootsOf_eq hshape, ok_bind] at hc
  refine ⟨d, hd, computeAll_keeps ?_ hc⟩
  intro f hf c c' hc
  exact computeField_keeps (fun w hw => hkeys w (List.mem_flatMap.2 ⟨f, hf, hw⟩)) hc

/-- Values that agree after the defaults are completed to values that agree. -/
theorem resolve_alike {schema : Value} {values values' : Entries} (hd : defaults schema = .ok d)
    (h : Agree (Entries.insertAll d values) (Entries.insertAll d values')) :
    Alike Agree (resolve limits schema values) (resolve limits schema values') := by
  rw [resolve, resolve, hd, ok_bind, ok_bind, withComputed, withComputed]
  exact .after _ fun fs => computeAll_alike limits fs h

end Form

end FormDesigner
