import FormDesigner.Proofs.Form.Agreement
import FormDesigner.Proofs.Form.Visibility

/-!
# Computed values are settled

Working out the values of a form goes through its computed fields one by one and stores what each
of them gives. What an expression gives depends on the keys that it reads alone. So if no computed
field reads its own key or that of a computed field after it, nothing that is stored later can
change what it gave: all fields are settled in the end, and working out the result again changes
nothing.
-/

namespace FormDesigner

namespace Form

open Expression (Limits LimitSource AgreeOn HasOverlongInteger computed? valueAt)
open FormDesigner.Field (ofValue hasComputed)
open Result

variable {limits : LimitSource} {fs : List Value} {f v : Value} {c c' d r : Entries} {k : String}

/-! ### The walk as a loop -/

/-- The fields of a schema that are computed, in the order in which they are worked out. Templates
are none of them. -/
def computedFields (schema : Value) : List Value :=
  ((Schema.rootFields schema).flatMap Value.nodes).filter hasComputed

/-- Working out some fields one after the other. -/
def workOutAll (limits : LimitSource) (values : Entries) (fs : List Value) :
    Except Failure Entries :=
  fs.foldlM (fun values f => workOut limits f values) values

theorem workOutAll_nil (values : Entries) : workOutAll limits values [] = .ok values := rfl

theorem workOutAll_cons (values : Entries) (f : Value) (fs : List Value) :
    workOutAll limits values (f :: fs) =
      workOut limits f values >>= fun values => workOutAll limits values fs :=
  List.foldlM_cons

theorem workOutAll_append (values : Entries) (fs gs : List Value) :
    workOutAll limits values (fs ++ gs) =
      workOutAll limits values fs >>= fun values => workOutAll limits values gs :=
  List.foldlM_append

theorem workOutAll_filter (values : Entries) (fs : List Value) :
    workOutAll limits values (fs.filter hasComputed) = workOutAll limits values fs := by
  have hstep : (fun values f => if hasComputed f then workOut limits f values else pure values) =
      fun values f => workOut limits f values := by
    funext values f
    by_cases hf : hasComputed f = true
    · rw [if_pos hf]
    · rw [if_neg hf, workOut, if_neg hf]
  rw [workOutAll, List.foldlM_filter, hstep, workOutAll]

theorem computeAll_eq_workOutAll
    (h : ∀ f ∈ fs, ∀ values,
      computeField limits values (ofValue f) = workOutAll limits values f.nodes)
    (values : Entries) :
    computeAll limits values (fs.map ofValue) =
      workOutAll limits values (fs.flatMap Value.nodes) := by
  induction fs generalizing values with
  | nil => rw [List.map_nil, computeAll, List.flatMap_nil, workOutAll_nil]
  | cons f fs ih =>
      obtain ⟨hf, hfs⟩ := List.forall_mem_cons.1 h
      rw [List.map_cons, computeAll, hf, List.flatMap_cons, workOutAll_append]
      exact bind_congr fun values => ih hfs values

/-- A field is worked out, and then what stands inside it. By induction on what the field owns. -/
theorem computeField_eq_workOutAll (h : v.Fits) (values : Entries) :
    computeField limits values (ofValue v) = workOutAll limits values v.nodes := by
  induction v using Value.owned_induction generalizing values with
  | node v ih _ =>
      rw [Field.ofValue_eq, computeField_eq, demandMap_of_fits h, ok_bind, Value.nodes_eq,
        workOutAll_cons]
      refine bind_congr fun values => ?_
      split
      · rename_i hsection
        rw [demandItems_of_fits h hsection, ok_bind]
        exact computeAll_eq_workOutAll (fun c hc => ih c hc (h.children c hc)) values
      · rename_i hsection
        rw [Value.childValues_of_not_isSection hsection]
        rfl

theorem withComputed_eq {schema : Value} (hshape : Schema.HasShape schema) (values : Entries) :
    withComputed limits schema values = workOutAll limits values (computedFields schema) := by
  rw [withComputed, rootsOf_eq hshape, ok_bind, computedFields, workOutAll_filter]
  exact computeAll_eq_workOutAll (fun f hf => computeField_eq_workOutAll (hshape.fits f hf)) values

/-! ### One field -/

/-- A computed field with a text as its key. -/
structure IsComputed (f : Value) : Prop where
  computed : hasComputed f = true
  key : f.getOrNull "key" = .text (keyText f)
  entry : f.entry "key" = .ok (.text (keyText f))

theorem isComputed_of_fits (h : f.Fits) (hf : hasComputed f = true) : IsComputed f := by
  obtain ⟨key, -, hkey⟩ := h.key
  have htext : f.getOrNull "key" = .text (keyText f) := by rw [hkey, keyText_eq hkey]
  exact ⟨hf, htext, (entry_key_of_fits h).trans (congrArg _ htext)⟩

theorem IsComputed.workOut_eq (h : IsComputed f) (values : Entries) :
    workOut limits f values =
      computed? limits (f.getOrNull "computed") values >>= fun w =>
        .ok ((w.map (Entries.insert values (.text (keyText f)))).getD values) := by
  rw [workOut, if_pos h.computed]
  refine bind_congr fun w => ?_
  cases w with
  | none => rfl
  | some w =>
      dsimp only
      rw [h.entry, ok_bind]
      rfl

/-- What working out a field comes to: its expression gives no value, or one that is stored. -/
theorem IsComputed.workOut_cases (h : IsComputed f) (hc : workOut limits f c = .ok c') :
    computed? limits (f.getOrNull "computed") c = .ok none ∧ c' = c ∨
      ∃ w, computed? limits (f.getOrNull "computed") c = .ok (some w) ∧
        c' = Entries.insert c (.text (keyText f)) w := by
  rw [h.workOut_eq] at hc
  obtain ⟨w, hw, hc⟩ := bind_eq_ok.1 hc
  obtain rfl := Except.ok.inj hc
  cases w with
  | none => exact .inl ⟨hw, rfl⟩
  | some w => exact .inr ⟨w, hw, rfl⟩

/-- Under other keys everything stays. -/
theorem IsComputed.get?_workOut (h : IsComputed f) (hk : keyText f ≠ k)
    (hc : workOut limits f c = .ok c') : Entries.get? c' (.text k) = Entries.get? c (.text k) := by
  rcases h.workOut_cases hc with ⟨-, rfl⟩ | ⟨w, -, rfl⟩
  · rfl
  · exact Entries.get?_insert_of_ne hk.symm

/-- A value stands under a key, and storing it there again makes no difference. -/
def IsStored (values : Entries) (k : String) (w : Value) : Prop :=
  Entries.insert values (.text k) w = values

theorem isStored_insert (values : Entries) (k : String) (w : Value) :
    IsStored (Entries.insert values (.text k) w) k w :=
  Entries.insert_insert_self

theorem IsStored.get? {w : Value} (h : IsStored c k w) : Entries.get? c (.text k) = some w := by
  rw [← h]
  exact Entries.get?_insert_self

theorem IsStored.insert {w u : Value} {n : String} (h : IsStored c k w) (hn : n ≠ k) :
    IsStored (Entries.insert c (.text n) u) k w := by
  have hmem : k ∈ Entries.names c := Entries.get?_isSome_iff.1 (Option.isSome_of_eq_some h.get?)
  have hne : Value.text n ≠ .text k := fun heq => hn (Value.text.inj heq)
  rw [IsStored, ← Entries.insert_insert_of_ne_key hne hmem, h]

theorem IsComputed.isStored_workOut {w : Value} (h : IsComputed f) (hk : keyText f ≠ k)
    (hstored : IsStored c k w) (hc : workOut limits f c = .ok c') : IsStored c' k w := by
  rcases h.workOut_cases hc with ⟨-, rfl⟩ | ⟨u, -, rfl⟩
  · exact hstored
  · exact hstored.insert hk

/-! ### All fields -/

/-- What working out each of some fields keeps, working out all of them keeps. -/
theorem workOutAll_keeps {P : Entries → Prop}
    (step : ∀ f ∈ fs, ∀ {c c' : Entries}, workOut limits f c = .ok c' → P c → P c')
    (hr : workOutAll limits c fs = .ok r) (hc : P c) : P r := by
  induction fs generalizing c with
  | nil => rwa [← Except.ok.inj hr]
  | cons f fs ih =>
      obtain ⟨hf, hfs⟩ := List.forall_mem_cons.1 step
      rw [workOutAll_cons] at hr
      obtain ⟨d, hd, hr⟩ := bind_eq_ok.1 hr
      exact ih hfs hr (hf hd hc)

theorem get?_workOutAll (h : ∀ f ∈ fs, IsComputed f) (hk : ∀ f ∈ fs, keyText f ≠ k)
    (hr : workOutAll limits c fs = .ok r) :
    Entries.get? r (.text k) = Entries.get? c (.text k) :=
  workOutAll_keeps (P := fun d => Entries.get? d (.text k) = Entries.get? c (.text k))
    (fun f hf _ _ hd hc => ((h f hf).get?_workOut (hk f hf) hd).trans hc) hr rfl

theorem isStored_workOutAll {w : Value} (h : ∀ f ∈ fs, IsComputed f)
    (hk : ∀ f ∈ fs, keyText f ≠ k) (hstored : IsStored c k w)
    (hr : workOutAll limits c fs = .ok r) : IsStored r k w :=
  workOutAll_keeps (P := fun d => IsStored d k w)
    (fun f hf _ _ hd hc => (h f hf).isStored_workOut (hk f hf) hc hd) hr hstored

/-- No field reads its own key or that of a field after it. -/
structure ReadsBackward (limits : LimitSource) (fs : List Value) : Prop where
  own : ∀ f ∈ fs, Ignores limits (keyText f) (f.getOrNull "computed")
  later : fs.Pairwise fun f g => Ignores limits (keyText g) (f.getOrNull "computed")

theorem ReadsBackward.tail (h : ReadsBackward limits (f :: fs)) : ReadsBackward limits fs :=
  ⟨fun g hg => h.own g (List.mem_cons_of_mem f hg), (List.pairwise_cons.1 h.later).2⟩

/-- A field reads nothing that working it out, or the fields after it, can change. -/
theorem ReadsBackward.computed?_eq (h : ReadsBackward limits (f :: fs))
    (hcomputed : ∀ g ∈ f :: fs, IsComputed g) (hr : workOutAll limits c (f :: fs) = .ok r) :
    computed? limits (f.getOrNull "computed") r = computed? limits (f.getOrNull "computed") c := by
  have hread : ∀ keys, Expression.referencedKeys limits (f.getOrNull "computed") = .ok keys →
      AgreeOn keys r c := by
    intro keys hkeys key hkey
    refine congrArg (·.getD .null) (get?_workOutAll hcomputed ?_ hr)
    refine List.forall_mem_cons.2 ⟨?_, fun g hg => ?_⟩
    · rintro rfl
      exact h.own f List.mem_cons_self keys hkeys hkey
    · rintro rfl
      exact (List.pairwise_cons.1 h.later).1 g hg keys hkeys hkey
  rw [computed?, computed?, Expression.evaluateText_congr fun e he => ?_]
  have hkeys := Expression.referencedKeys_eq_ok_iff.2 ⟨some e, he, rfl⟩
  exact (hread _ hkeys).mono fun key hkey => Expression.mem_keys_iff.2 hkey

/-- A field is settled if its expression gives what stands under its key, or if it gives nothing and
what stood there to begin with is still there. -/
def IsSettled (limits : LimitSource) (before after : Entries) (f : Value) : Prop :=
  (∃ w, computed? limits (f.getOrNull "computed") after = .ok (some w) ∧
    Entries.get? after (f.getOrNull "key") = some w) ∨
  computed? limits (f.getOrNull "computed") after = .ok none ∧
    Entries.get? after (f.getOrNull "key") = Entries.get? before (f.getOrNull "key")

/-- Fields with keys of their own that read backward are all settled in the end, and working one of
them out again changes nothing. By induction on the fields: those after the first one leave alone
what it reads and what stands under its key. -/
theorem settled_of_workOutAll (hcomputed : ∀ f ∈ fs, IsComputed f)
    (hkeys : (fs.map keyText).Nodup)
    (h : ReadsBackward limits fs) (hr : workOutAll limits c fs = .ok r) :
    ∀ f ∈ fs, IsSettled limits c r f ∧ workOut limits f r = .ok r := by
  induction fs generalizing c with
  | nil => exact List.forall_mem_nil _
  | cons f fs ih =>
      have hsame := h.computed?_eq hcomputed hr
      obtain ⟨hf, hfs⟩ := List.forall_mem_cons.1 hcomputed
      obtain ⟨hkey, hkeys⟩ := List.nodup_cons.1 hkeys
      rw [List.mem_map, not_exists] at hkey
      have hother : ∀ g ∈ fs, keyText g ≠ keyText f := fun g hg heq => hkey g ⟨hg, heq⟩
      rw [workOutAll_cons] at hr
      obtain ⟨d, hd, hr⟩ := bind_eq_ok.1 hr
      refine List.forall_mem_cons.2 ⟨?_, fun g hg => ?_⟩
      · rw [IsSettled, hf.workOut_eq, hsame, hf.key, get?_workOutAll hfs hother hr]
        rcases hf.workOut_cases hd with ⟨hnone, rfl⟩ | ⟨w, hw, rfl⟩
        · rw [hnone]
          exact ⟨.inr ⟨rfl, rfl⟩, rfl⟩
        · have hstored := isStored_insert c (keyText f) w
          have hstill := isStored_workOutAll hfs hother hstored hr
          rw [hw]
          exact ⟨.inl ⟨w, rfl, hstored.get?⟩, congrArg _ hstill⟩
      · obtain ⟨hsettled, hagain⟩ := ih hfs hkeys h.tail hr g hg
        have hg' := (hfs g hg).key
        have hstill := hf.get?_workOut (hother g hg).symm hd
        rw [IsSettled, hg'] at hsettled ⊢
        rw [hstill] at hsettled
        exact ⟨hsettled, hagain⟩

theorem workOutAll_of_forall (h : ∀ f ∈ fs, workOut limits f r = .ok r) :
    workOutAll limits r fs = .ok r := by
  induction fs with
  | nil => rfl
  | cons f fs ih =>
      obtain ⟨hf, hfs⟩ := List.forall_mem_cons.1 h
      rw [workOutAll_cons, hf, ok_bind, ih hfs]

/-! ### Whether there is a result -/

/-- The expression of a field has an integer of too many digits. -/
def IsOverlong (limits : Limits) (f : Value) (digits : Nat) : Prop :=
  ∃ source, f.getOrNull "computed" = .text source ∧
    HasOverlongInteger limits (Text.trim source) digits

/-- A computed field can be worked out, unless its expression cannot even be read. -/
theorem IsComputed.workOut_answers (h : IsComputed f) (limits : Limits) :
    (∀ values, ∃ values', workOut (.ok limits) f values = .ok values') ∨
      ∃ digits, IsOverlong limits f digits ∧
        ∀ values, workOut (.ok limits) f values = .error (.integerDigitLimit digits) := by
  obtain ⟨source, hsource⟩ : ∃ source, f.getOrNull "computed" = .text source := by
    have hcomputed := h.computed
    unfold Field.hasComputed at hcomputed
    split at hcomputed
    · exact ⟨_, ‹_›⟩
    · cases hcomputed
  by_cases hlong : ∃ digits, HasOverlongInteger limits (Text.trim source) digits
  · obtain ⟨digits, hdigits⟩ := hlong
    refine .inr ⟨digits, ⟨source, hsource, hdigits⟩, fun values => ?_⟩
    rw [h.workOut_eq, hsource,
      (Expression.isStopped_of_hasOverlongInteger hdigits).computes values]
    rfl
  · have hanswered := Expression.isAnswered_of_not_hasOverlongInteger (not_exists.1 hlong)
    refine .inl fun values => ?_
    obtain ⟨w, hw⟩ := hanswered.computes values
    rw [h.workOut_eq, hsource, hw]
    exact ⟨_, rfl⟩

theorem workOutAll_answers (h : ∀ f ∈ fs, IsComputed f) (limits : Limits) (values : Entries) :
    (∃ r, workOutAll (.ok limits) values fs = .ok r) ∨
      ∃ f ∈ fs, ∃ digits, IsOverlong limits f digits ∧
        workOutAll (.ok limits) values fs = .error (.integerDigitLimit digits) := by
  induction fs generalizing values with
  | nil => exact .inl ⟨values, rfl⟩
  | cons f fs ih =>
      obtain ⟨hf, hfs⟩ := List.forall_mem_cons.1 h
      rw [workOutAll_cons]
      rcases hf.workOut_answers limits with hok | ⟨digits, hlong, hstop⟩
      · obtain ⟨d, hd⟩ := hok values
        rw [hd, ok_bind]
        exact (ih hfs d).imp_right fun ⟨g, hg, hstopped⟩ =>
          ⟨g, List.mem_cons_of_mem f hg, hstopped⟩
      · rw [hstop]
        exact .inr ⟨f, List.mem_cons_self, digits, hlong, rfl⟩

/-! ### The values of a form -/

theorem fits_of_mem_computedFields {schema : Value} (hshape : Schema.HasShape schema)
    (h : f ∈ computedFields schema) : f.Fits := by
  obtain ⟨root, hroot, hf⟩ := List.mem_flatMap.1 (List.mem_of_mem_filter h)
  exact Value.isInherited_fits.nodes (hshape.fits root hroot) f hf

theorem isComputed_of_mem_computedFields {schema : Value} (hshape : Schema.HasShape schema)
    (h : f ∈ computedFields schema) : IsComputed f :=
  isComputed_of_fits (fits_of_mem_computedFields hshape h) (List.mem_filter.1 h).2

theorem nodup_keyText_computedFields {schema : Value} (hshape : Schema.HasShape schema)
    (hkeys : ((Schema.rootFields schema).flatMap (Value.gathered "key")).Nodup) :
    ((computedFields schema).map keyText).Nodup := by
  have hnodes : (((Schema.rootFields schema).flatMap Value.nodes).map
      fun f => f.getOrNull "key").Nodup := by
    refine hkeys.sublist ?_
    rw [List.map_flatMap]
    exact List.Sublist.flatMap_right _ fun v _ => Value.map_nodes_sublist_gathered "key" v
  have hvalues : ((computedFields schema).map fun f => f.getOrNull "key").Nodup :=
    hnodes.sublist (List.filter_sublist.map _)
  have htexts : (computedFields schema).map (fun f => f.getOrNull "key") =
      ((computedFields schema).map keyText).map Value.text := by
    rw [List.map_map]
    exact List.map_congr_left fun f hf => (isComputed_of_mem_computedFields hshape hf).key
  rw [htexts] at hvalues
  exact hvalues.of_map _

/-- If no computed field of a valid schema reads its own key or that of a computed field after it,
then the values that are worked out are settled: in them every computed field has the value that its
expression gives, or the one that it had if its expression gives none, and working them out again
changes nothing. There are such values unless the expression of a computed field has an integer of
too many digits and cannot be read. -/
theorem withComputed_settles (limits : Limits) {schema : Value}
    (valid : Schema.problems schema = .ok [])
    (backward : ReadsBackward (.ok limits) (computedFields schema)) (values : Entries) :
    (∃ r, withComputed (.ok limits) schema values = .ok r ∧
      (∀ f ∈ computedFields schema, IsSettled (.ok limits) values r f) ∧
      withComputed (.ok limits) schema r = .ok r) ∨
    ∃ f ∈ computedFields schema, ∃ digits, IsOverlong limits f digits ∧
      withComputed (.ok limits) schema values = .error (.integerDigitLimit digits) := by
  obtain ⟨hshape, -, hkeys, -⟩ := Schema.problems_eq_nil_iff.1 valid
  have hcomputed : ∀ f ∈ computedFields schema, IsComputed f := fun f hf =>
    isComputed_of_mem_computedFields hshape hf
  simp only [withComputed_eq hshape]
  refine (workOutAll_answers hcomputed limits values).imp_left fun ⟨r, hr⟩ => ?_
  have hsettled := settled_of_workOutAll hcomputed
    (nodup_keyText_computedFields hshape hkeys) backward hr
  exact ⟨r, hr, fun f hf => (hsettled f hf).1,
    workOutAll_of_forall fun f hf => (hsettled f hf).2⟩

/-- A number with an expression. -/
def computedNumber (id key computed : String) : Value :=
  .ofFields [("id", .text id), ("key", .text key), ("type", .text "number"), ("label", .text "N"),
    ("computed", .text computed)]

/-- A sum, which stands in a section. -/
def sumField : Value := computedNumber "2" "t" "a+1"

/-- One more than the sum. -/
def nextField : Value := computedNumber "3" "u" "t+1"

/-- A quotient of something that no field has. -/
def quotientField : Value := computedNumber "4" "q" "1/z"

def computingForm : Value :=
  .ofFields [("version", .int 1), ("fields", .list [
    .ofFields [("id", .text "1"), ("key", .text "s"), ("type", .text "section"),
      ("label", .text "S"), ("children", .list [sumField])],
    nextField, quotientField])]

def computingValues : Entries := [(.text "q", .int 7), (.text "a", .int 2)]

/-- The values with the sum. -/
def summedValues : Entries := computingValues ++ [(.text "t", .int 3)]

def computedValues : Entries := summedValues ++ [(.text "u", .int 4)]

theorem problems_computingForm : Schema.problems computingForm = .ok [] := by
  cbv

theorem computedFields_computingForm :
    computedFields computingForm = [sumField, nextField, quotientField] := by
  cbv

theorem computed_sumField : sumField.getOrNull "computed" = .text "a+1" := by
  cbv

theorem computed_nextField : nextField.getOrNull "computed" = .text "t+1" := by
  cbv

theorem computed_quotientField : quotientField.getOrNull "computed" = .text "1/z" := by
  cbv

theorem keyText_sumField : keyText sumField = "t" := by
  cbv

theorem keyText_nextField : keyText nextField = "u" := by
  cbv

theorem keyText_quotientField : keyText quotientField = "q" := by
  cbv

theorem referencedKeys_sum :
    Expression.referencedKeys (.ok .standard) (.text "a+1") = .ok ["a"] := by
  cbv

theorem referencedKeys_next :
    Expression.referencedKeys (.ok .standard) (.text "t+1") = .ok ["t"] := by
  cbv

theorem referencedKeys_quotient :
    Expression.referencedKeys (.ok .standard) (.text "1/z") = .ok ["z"] := by
  cbv

/-- The sum reads `a`, which is not computed, and the number after it reads the sum. -/
theorem readsBackward_computingForm :
    ReadsBackward (.ok .standard) (computedFields computingForm) := by
  rw [computedFields_computingForm]
  constructor
  · simp [Ignores, computed_sumField, computed_nextField, computed_quotientField,
      keyText_sumField, keyText_nextField, keyText_quotientField, referencedKeys_sum,
      referencedKeys_next, referencedKeys_quotient]
  · simp [Ignores, computed_sumField, computed_nextField, keyText_nextField,
      keyText_quotientField, referencedKeys_sum, referencedKeys_next]

theorem workOut_sumField :
    workOut (.ok .standard) sumField computingValues = .ok summedValues := by
  cbv

theorem workOut_nextField :
    workOut (.ok .standard) nextField summedValues = .ok computedValues := by
  cbv

theorem workOut_quotientField :
    workOut (.ok .standard) quotientField computedValues = .ok computedValues := by
  cbv

theorem withComputed_computingForm :
    withComputed (.ok .standard) computingForm computingValues = .ok computedValues := by
  rw [withComputed_eq (Schema.problems_eq_nil_iff.1 problems_computingForm).1,
    computedFields_computingForm, workOutAll_cons, workOut_sumField, ok_bind, workOutAll_cons,
    workOut_nextField, ok_bind, workOutAll_cons, workOut_quotientField, ok_bind, workOutAll_nil]

/-- The sum is worked out inside its section before the number that reads it. There is no quotient,
so the value that was given for it stays. -/
theorem withComputed_settles_computingForm :
    Schema.problems computingForm = .ok [] ∧
      ReadsBackward (.ok .standard) (computedFields computingForm) ∧
      withComputed (.ok .standard) computingForm computingValues = .ok computedValues ∧
      (∀ f ∈ [sumField, nextField, quotientField],
        IsSettled (.ok .standard) computingValues computedValues f) ∧
      withComputed (.ok .standard) computingForm computedValues = .ok computedValues := by
  refine ⟨problems_computingForm, readsBackward_computingForm, withComputed_computingForm, ?_⟩
  rcases withComputed_settles .standard problems_computingForm readsBackward_computingForm
    computingValues with ⟨r, hr, hsettled⟩ | ⟨f, -, digits, -, hstopped⟩
  · obtain rfl := Except.ok.inj (withComputed_computingForm.symm.trans hr)
    rwa [computedFields_computingForm] at hsettled
  · cases withComputed_computingForm.symm.trans hstopped

end Form

end FormDesigner
