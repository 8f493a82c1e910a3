import FormDesigner.Proofs.Expression.Dependence
import FormDesigner.Proofs.Form.Visibility

/-!
# What an item of an array depends on

An item is checked with the values of the whole form, and among these is the list that it comes
from. Nothing looks at the rest of the list: the fields of the template have other keys than the
array, so only a visibility expression could. Two forms that differ in nothing but the list of an
array thus say the same of an item that both lists have, wherever it stands in them.
-/

namespace FormDesigner

namespace Form

open Expression (LimitSource valueAt)
open Value (gathered owned_induction)
open Result

/-! ### Values that differ under one key -/

/-- Values that are the same under all keys but one. -/
def AgreeBeside (k : String) (c c' : Entries) : Prop :=
  ∀ key, key ≠ k → valueAt c key = valueAt c' key

variable {k : String} {c c' : Entries}

theorem AgreeBeside.symm (h : AgreeBeside k c c') : AgreeBeside k c' c := fun key hkey =>
  (h key hkey).symm

/-- Storing under a key does not change what stands under a text that is not this key. -/
theorem valueAt_insert_of_ne {key w : Value} {name : String} (h : key ≠ .text name) (c : Entries) :
    valueAt (Entries.insert c key w) name = valueAt c name :=
  congrArg (·.getD .null) (Entries.get?_insert_of_ne_key h)

theorem valueAt_insert_self (c : Entries) (name : String) (w : Value) :
    valueAt (Entries.insert c (.text name) w) name = w := by
  rw [valueAt, Entries.get?_insert_self, Option.getD_some]

theorem AgreeBeside.insert (h : AgreeBeside k c c') (key w : Value) :
    AgreeBeside k (Entries.insert c key w) (Entries.insert c' key w) := by
  intro name hname
  by_cases hkey : key = .text name
  · rw [hkey, valueAt_insert_self, valueAt_insert_self]
  · rw [valueAt_insert_of_ne hkey, valueAt_insert_of_ne hkey, h name hname]

theorem AgreeBeside.insertAll (h : AgreeBeside k c c') (es : Entries) :
    AgreeBeside k (Entries.insertAll c es) (Entries.insertAll c' es) := by
  induction es generalizing c c' with
  | nil => exact h
  | cons e es ih => exact ih (h.insert e.1 e.2)

/-- The values that an item sees differ under the same key as those of the forms. -/
theorem AgreeBeside.itemValues (h : AgreeBeside k c c') (template item : Value) :
    Alike (AgreeBeside k) (itemValues template item c) (itemValues template item c') := by
  unfold Form.itemValues
  by_cases hsection : template.isSection = true
  · rw [if_pos hsection, if_pos hsection]
    cases item with
    | map es => exact .ok (h.insertAll es)
    | _ => exact .ok h
  · rw [if_neg hsection, if_neg hsection]
    refine .after _ fun _ => ?_
    unfold store
    split
    · exact .ok (h.insert _ _)
    · exact .error _

/-! ### What does not look at the key -/

variable {limits : LimitSource} {v : Value}

/-- An expression is not reported to read a key. One that is not well-formed reads none. -/
def Ignores (limits : LimitSource) (k : String) (source : Value) : Prop :=
  ∀ keys, Expression.referencedKeys limits source = .ok keys → k ∉ keys

/-- A field has another key, and is shown or hidden whatever stands under the key. -/
structure IsBlind (limits : LimitSource) (k : String) (v : Value) : Prop where
  key : v.getOrNull "key" ≠ .text k
  visibleWhen : Ignores limits k (v.getOrNull "visibleWhen")

theorem Ignores.isVisible_eq {source : Value} (h : Ignores limits k source)
    (agree : AgreeBeside k c c') :
    Expression.isVisible limits source c = Expression.isVisible limits source c' := by
  have htext : Expression.evaluateText limits source c =
      Expression.evaluateText limits source c' := by
    refine Expression.evaluateText_congr fun e hcompile key hkey => agree key fun heq => ?_
    have hkeys := h e.keys (Expression.referencedKeys_eq_ok_iff.2 ⟨_, hcompile, rfl⟩)
    exact hkeys (heq ▸ Expression.mem_keys_iff.2 hkey)
  rw [Expression.isVisible, Expression.isVisible, htext]

theorem IsBlind.isShown_eq (h : IsBlind limits k v) (agree : AgreeBeside k c c') :
    isShown limits v c = isShown limits v c' := h.visibleWhen.isVisible_eq agree

theorem lookUp_text (c : Entries) (name : String) : lookUp c (.text name) = .ok (valueAt c name) :=
  rfl

theorem IsBlind.fieldMessage?_eq (h : IsBlind limits k v) (hfits : v.Fits)
    (agree : AgreeBeside k c c') : fieldMessage? limits v c = fieldMessage? limits v c' := by
  obtain ⟨name, -, hname⟩ := hfits.key
  have hne : name ≠ k := fun heq => h.key (heq ▸ hname)
  rw [fieldMessage?, fieldMessage?, h.isShown_eq agree, hname, lookUp_text, lookUp_text,
    agree name hne]

/-! ### Spots that correspond -/

/-- Spots of one field. Their names begin in different ways and go on alike, and the values that
their fields see differ under one key at most. -/
structure Spot.Matches (k start start' : String) (s t : Spot) : Prop where
  field : t.field = s.field
  values : AgreeBeside k s.values t.values
  name : ∃ rest, s.name = start ++ rest ∧ t.name = start' ++ rest
  start : ∃ rest, s.start = start ++ rest ∧ t.start = start' ++ rest

namespace Spot.Matches

variable {start start' : String} {s t : Spot}

theorem child (h : s.Matches k start start' t) (f : Value) :
    (s.child f).Matches k start start' (t.child f) := by
  obtain ⟨rest, hs, ht⟩ := h.start
  refine ⟨rfl, h.values, ⟨rest ++ keyText f, ?_, ?_⟩, ⟨rest, hs, ht⟩⟩
  · rw [Spot.child, hs, String.append_assoc]
  · rw [Spot.child, ht, String.append_assoc]

theorem itemName (h : s.Matches k start start' t) (i : Nat) :
    ∃ rest, itemName s.name i = start ++ rest ∧ Form.itemName t.name i = start' ++ rest := by
  obtain ⟨rest, hs, ht⟩ := h.name
  refine ⟨rest ++ "[" ++ toString i ++ "]", ?_, ?_⟩
  · rw [Form.itemName, hs]
    simp only [String.append_assoc]
  · rw [Form.itemName, ht]
    simp only [String.append_assoc]

theorem item? (h : s.Matches k start start' t) (template : Value) (entry : Value × Nat) :
    Option.Rel (Matches k start start') (s.item? template entry) (t.item? template entry) := by
  have halike := h.values.itemValues template entry.1
  obtain ⟨rest, hs, ht⟩ := h.itemName entry.2
  unfold Spot.item?
  generalize Form.itemValues template entry.1 s.values = d at halike ⊢
  generalize Form.itemValues template entry.1 t.values = d' at halike ⊢
  cases halike with
  | error => exact .none
  | ok related =>
      refine .some ⟨rfl, related, ⟨rest, hs, ht⟩, ⟨rest ++ ".", ?_, ?_⟩⟩
      · rw [hs, String.append_assoc]
      · rw [ht, String.append_assoc]

theorem isShown_eq (h : s.Matches k start start' t) (blind : IsBlind limits k s.field) :
    isShown limits t.field t.values = isShown limits s.field s.values := by
  rw [h.field, blind.isShown_eq h.values]

theorem message?_eq (h : s.Matches k start start' t) (blind : IsBlind limits k s.field)
    (fits : s.field.Fits) : t.message? limits = s.message? limits := by
  rw [Spot.message?, Spot.message?, h.field, blind.fieldMessage?_eq fits h.values]

theorem items_eq (h : s.Matches k start start' t) (blind : IsBlind limits k s.field)
    (fits : s.field.Fits) : t.items = s.items := by
  obtain ⟨name, -, hname⟩ := fits.key
  have hne : name ≠ k := fun heq => blind.key (heq ▸ hname)
  have hvalue : (Entries.get? t.values (.text name)).getD .null =
      (Entries.get? s.values (.text name)).getD .null := (h.values name hne).symm
  rw [Spot.items, Spot.items, h.field, hname, hvalue]

/-- Spots that correspond lead to spots that correspond. -/
theorem parts (h : s.Matches k start start' t) (blind : IsBlind limits k s.field)
    (fits : s.field.Fits) :
    List.Forall₂ (Matches k start start') (s.parts limits) (t.parts limits) := by
  unfold Spot.parts
  rw [h.isShown_eq blind]
  split
  · rw [h.field, h.items_eq blind fits]
    refine List.rel_append ?_ ?_
    · rw [List.forall₂_map_left_iff, List.forall₂_map_right_iff]
      exact List.forall₂_same.2 fun f _ => h.child f
    · have heq : ∀ {α : Type} (xs : List α), List.Forall₂ Eq xs xs := fun xs =>
        List.forall₂_same.2 fun _ _ => rfl
      refine List.rel_flatMap (heq _) ?_
      rintro template _ rfl
      refine List.rel_filterMap ?_ (heq _)
      rintro entry _ rfl
      exact h.item? template entry
  · exact .nil

/-- So do the walks from them, spot by spot, and the same is wrong. -/
theorem walk (h : s.Matches k start start' t) (blind : ∀ f ∈ s.field.owned, IsBlind limits k f)
    (fits : s.field.Fits) :
    List.Forall₂ (fun s t => s.Matches k start start' t ∧ t.message? limits = s.message? limits)
      (s.walk limits) (t.walk limits) := by
  induction s using Spot.walk.induct limits generalizing t with
  | case1 s ih =>
      rw [Value.owned_eq] at blind
      have hself := blind _ List.mem_cons_self
      have hparts := h.parts hself fits
      have hwalks : ∀ part ∈ s.parts limits, ∀ u, part.Matches k start start' u →
          List.Forall₂ (fun s t => s.Matches k start start' t ∧
            t.message? limits = s.message? limits) (part.walk limits) (u.walk limits) := by
        intro part hpart u hu
        obtain ⟨-, ⟨-, c, hc, rfl⟩ | ⟨template, htemplate, i, rfl, -⟩⟩ := Spot.part_cases hpart
        · refine ih ⟨_, hpart⟩ hu (fun f hf => blind f ?_) (fits.children c hc)
          refine List.mem_cons_of_mem _ (List.mem_append_left _ ?_)
          exact List.mem_flatMap.2 ⟨c, hc, hf⟩
        · have hfits := fits.template _ htemplate
          refine ih ⟨_, hpart⟩ hu (fun f hf => blind f ?_) hfits
          refine List.mem_cons_of_mem _ (List.mem_append_right _ ?_)
          refine List.mem_flatMap.2 ⟨part.field, ?_, hf⟩
          rw [Value.fieldTemplate, htemplate, Option.filter_some_pos hfits.isMap]
          exact List.mem_singleton_self _
      rw [Spot.walk_eq, Spot.walk_eq]
      refine .cons ⟨h, h.message?_eq hself fits⟩ (List.rel_flatMap ?_ fun _ _ hwalk => hwalk)
      exact ((List.forall₂_and_left _ _).2 ⟨hwalks, hparts⟩).imp fun part u h => h.1 u h.2

end Spot.Matches

/-! ### Where the items of an array are checked -/

variable {schema a : Value} {values : Entries} {s t : Spot}

/-- A spot that leads to another one leads to a child, or to an item with its position. -/
theorem Spot.mem_parts_cases (h : t ∈ s.parts limits) :
    (s.field.isSection = true ∧ ∃ c ∈ s.field.childValues, t = s.child c) ∨
      ∃ template ∈ s.field.templateValue?, ∃ entry ∈ s.items.zipIdx,
        s.item? template entry = some t := by
  unfold Spot.parts at h
  split at h
  · rcases List.mem_append.1 h with h | h
    · obtain ⟨c, hc, rfl⟩ := List.mem_map.1 h
      exact .inl ⟨(Value.mem_childValues hc).1, c, hc, rfl⟩
    · obtain ⟨template, htemplate, h⟩ := List.mem_flatMap.1 h
      obtain ⟨entry, hentry, h⟩ := List.mem_filterMap.1 h
      exact .inr ⟨template, Option.mem_toList.1 htemplate, entry, hentry, h⟩
  · exact absurd h List.not_mem_nil

/-- A spot is inside an item of an array that no other array stands around. -/
def IsInItem (limits : LimitSource) (values : Entries) (a template : Value) (entry : Value × Nat)
    (t : Spot) : Prop :=
  isShown limits a values = .ok true ∧ template ∈ a.templateValue? ∧
    entry ∈ (ownSpot values a).items.zipIdx ∧
    ∃ item, (ownSpot values a).item? template entry = some item ∧ t ∈ item.walk limits

/-- A spot is that of a field inside shown sections, or is inside an item of such a field. -/
theorem Visited.isOpen_or_isInItem (h : Visited limits schema values t) :
    (IsOpen limits values (Schema.rootFields schema) t.field ∧ t = ownSpot values t.field) ∨
      ∃ a template entry, IsOpen limits values (Schema.rootFields schema) a ∧
        IsInItem limits values a template entry t := by
  induction h with
  | @root s hroot =>
      obtain ⟨f, hf, rfl⟩ := List.mem_map.1 hroot
      exact .inl ⟨isOpen_iff.2 (.inl hf), rfl⟩
  | @inside s t _ part ih =>
      have hshown := (Spot.part_cases part).1
      rcases ih with ⟨hopen, hs⟩ | ⟨a, template, entry, hopen, ha, ht, hentry, item, hitem, hwalk⟩
      · rw [hs] at hshown
        rcases Spot.mem_parts_cases part with ⟨hsection, c, hc, rfl⟩ |
          ⟨template, htemplate, entry, hentry, hitem⟩
        · refine .inl ⟨hopen.child hsection hshown hc, ?_⟩
          rw [hs, Spot.child, ownSpot, ownSpot, String.empty_append]
        · rw [hs] at hentry hitem
          exact .inr ⟨s.field, template, entry, hopen, hshown, htemplate, hentry, t, hitem,
            t.mem_walk_self⟩
      · refine .inr ⟨a, template, entry, hopen, ha, ht, hentry, item, hitem, ?_⟩
        exact Spot.walk_subset hwalk (Spot.walk_subset_of_part part t.mem_walk_self)

/-- What is inside an item of an array that is visited is visited. -/
theorem IsInItem.visited {template : Value} {entry : Value × Nat}
    (ha : Visited limits schema values (ownSpot values a))
    (h : IsInItem limits values a template entry t) : Visited limits schema values t := by
  obtain ⟨hshown, htemplate, hentry, item, hitem, hwalk⟩ := h
  refine (ha.inside ?_).of_mem_walk hwalk
  rw [Spot.parts, ownSpot, hshown]
  refine List.mem_append_right _ (List.mem_flatMap.2 ⟨template, Option.mem_toList.2 htemplate, ?_⟩)
  exact List.mem_filterMap.2 ⟨entry, hentry, hitem⟩

/-- The keys of a field and below it are among those of the fields that it is reached from. -/
theorem Enclosed.gathered_sublist {fs owners : List Value} {f : Value} (h : Enclosed fs owners f)
    (n : String) : (f.gathered n).Sublist (fs.flatMap (gathered n)) := by
  have hmem : ∀ {fs : List Value} {f : Value}, f ∈ fs →
      (f.gathered n).Sublist (fs.flatMap (gathered n)) := by
    intro fs f hf
    rw [List.flatMap]
    exact List.sublist_flatten_of_mem (List.mem_map_of_mem hf)
  induction h with
  | here mem => exact hmem mem
  | inside mem isSection _ ih =>
      refine ih.trans (.trans ?_ (hmem mem))
      rw [Value.gathered_of_isSection isSection]
      exact List.sublist_cons_self _ _

section

variable {template : Value} {entry : Value × Nat}
variable (hshape : Schema.HasShape schema)
variable (hkeys : ((Schema.rootFields schema).flatMap (gathered "key")).Nodup)
variable (hfree : IsBracketFree ((Schema.rootFields schema).flatMap (gathered "key")))

include hshape hkeys in
/-- The fields of a template have other keys than the array. -/
theorem IsOpen.key_ne_of_mem_template (ha : IsOpen limits values (Schema.rootFields schema) a)
    (htemplate : template ∈ a.templateValue?) {f : Value} (hf : f ∈ template.owned) :
    f.getOrNull "key" ≠ a.getOrNull "key" := by
  obtain ⟨owners, henclosed, -⟩ := id ha
  have hfits := (ha.fits hshape.fits).template template htemplate
  have hnodup := hkeys.sublist (henclosed.gathered_sublist "key")
  rw [Value.gathered_eq, List.nodup_cons] at hnodup
  intro heq
  refine hnodup.1 (List.mem_append_right _ (List.mem_flatMap.2 ⟨template, ?_, ?_⟩))
  · rw [Value.fieldTemplate, htemplate, Option.filter_some_pos hfits.isMap]
    exact List.mem_singleton_self _
  · exact heq ▸ List.mem_map_of_mem hf

include hshape hkeys hfree in
/-- The names inside an item go on from the name of the item. -/
theorem IsInItem.begins_with_item (ha : IsOpen limits values (Schema.rootFields schema) a)
    (h : IsInItem limits values a template entry t) :
    ∃ rest, t.name.toList = (itemName (keyText a) entry.2).toList ++ rest := by
  obtain ⟨value, i⟩ := entry
  obtain ⟨-, htemplate, -, item, hitem, hwalk⟩ := h
  obtain ⟨owners, henclosed, -⟩ := id ha
  have hfits := (ha.fits hshape.fits).template template htemplate
  have hsub : (template.gathered "key").Sublist (a.gathered "key") := by
    rw [a.gathered_eq, Value.fieldTemplate, htemplate, Option.filter_some_pos hfits.isMap,
      Option.toList_some, List.flatMap_singleton]
    exact (List.sublist_append_right _ _).cons _
  have hgathered := hsub.trans (henclosed.gathered_sublist "key")
  have hdistinct : IsDistinct limits item :=
    isDistinct_of_nodup hfits (hkeys.sublist hgathered)
      (fun key hkey => hfree key (hgathered.subset hkey)) item (Spot.item?_eq_some hitem).1
      (isApart_item hitem)
  obtain ⟨rest, hrest⟩ := hdistinct.begins_with_item hitem hwalk
  rw [ownSpot] at hrest
  exact ⟨rest, hrest⟩

include hshape hkeys hfree in
/-- A spot whose name goes on from that of an item is inside this item. -/
theorem isInItem_of_name {key rest : String} {i : Nat}
    (ha : IsOpen limits values (Schema.rootFields schema) a) (hkey : a.getOrNull "key" = .text key)
    (ht : Visited limits schema values t) (hname : t.name = itemName key i ++ rest) :
    ∃ template item, IsInItem limits values a template (item, i) t := by
  have hbracketFree : ∀ {b : Value}, IsOpen limits values (Schema.rootFields schema) b →
      '[' ∉ (keyText b).toList := by
    rintro b ⟨owners, henclosed, howners⟩
    obtain ⟨n, -, hn⟩ := (henclosed.fits hshape.fits).key
    exact keyText_eq hn ▸ hfree n (hn ▸ henclosed.mem_gathered)
  rcases ht.isOpen_or_isInItem with ⟨hopen, heq⟩ | ⟨b, template, ⟨item, j⟩, hb, hin⟩
  · refine absurd ?_ (hbracketFree hopen)
    rw [heq, ownSpot] at hname
    dsimp only at hname
    rw [hname, String.toList_append, toList_itemName]
    simp
  · obtain ⟨rest', hrest'⟩ := hin.begins_with_item hshape hkeys hfree hb
    have hsame : (itemName (keyText b) j).toList ++ rest' =
        (itemName (keyText a) i).toList ++ rest.toList := by
      rw [← hrest', hname, String.toList_append, keyText_eq hkey]
    have hgoesOn : ∀ (name : String) (n : Nat) (rest : List Char),
        GoesOn ([] ++ name.toList) ((itemName name n).toList ++ rest) := fun name n rest => by
      rw [toList_itemName, List.append_assoc]
      exact ⟨_, rfl, fun c hc => (Option.some.inj hc).symm⟩
    have hkeyText : (keyText b).toList = (keyText a).toList :=
      GoesOn.key_unique (hbracketFree hb) (hbracketFree ha) (hgoesOn _ j rest')
        (hsame ▸ hgoesOn _ i rest.toList)
    have hkeyTexts := String.toList_inj.1 hkeyText
    obtain ⟨owners, henclosed, -⟩ := ha
    obtain ⟨owners', henclosed', -⟩ := hb
    obtain ⟨n, -, hn⟩ := (henclosed'.fits hshape.fits).key
    have hkeyEq : b.getOrNull "key" = a.getOrNull "key" := by
      rw [hn, hkey, ← keyText_eq hn, ← keyText_eq hkey, hkeyTexts]
    obtain ⟨-, rfl⟩ := henclosed'.unique henclosed hkeys hkeyEq
    obtain rfl := itemName_unique hsame
    exact ⟨template, item, hin⟩

end

/-! ### Items that two forms share -/

/-- The value at a position of the list under a key. -/
def itemAt? (c : Entries) (key : String) (i : Nat) : Option Value :=
  ((valueAt c key).asSequence?.getD [])[i]?

/-- A field whose template looks at nothing under the field's own key. -/
def IsSelfBlind (limits : LimitSource) (key : String) (a : Value) : Prop :=
  ∀ template ∈ a.templateValue?, ∀ f ∈ template.owned,
    Ignores limits key (f.getOrNull "visibleWhen")

theorem mem_items_iff {key : String} (hkey : a.getOrNull "key" = .text key)
    (hplain : Field.hasComputed a = false) {item : Value} {i : Nat} :
    (item, i) ∈ (ownSpot c a).items.zipIdx ↔ itemAt? c key i = some item := by
  rw [List.mem_zipIdx_iff_getElem?, Spot.items, ownSpot, if_neg (by simp [hplain]), hkey, itemAt?]
  rfl

theorem hasComputed_of_mem_items {entry : Value × Nat}
    (h : entry ∈ (ownSpot c a).items.zipIdx) : Field.hasComputed a = false := by
  by_contra hcomputed
  rw [Spot.items, ownSpot, if_pos (by simpa using hcomputed)] at h
  exact absurd h List.not_mem_nil

/-- An item that two lists have is checked in the same way in both, under its own names. -/
theorem AgreeBeside.exists_item {key : String} (agree : AgreeBeside key c c') (a template : Value)
    {item : Value} {i j : Nat} (hs : (ownSpot c a).item? template (item, i) = some s) :
    ∃ u, (ownSpot c' a).item? template (item, j) = some u ∧
      s.Matches key (itemName (keyText a) i) (itemName (keyText a) j) u := by
  have halike := agree.itemValues template item
  unfold Spot.item? ownSpot at hs ⊢
  dsimp only at hs ⊢
  generalize Form.itemValues template item c = d at halike hs
  generalize Form.itemValues template item c' = d' at halike ⊢
  cases halike with
  | error => cases hs
  | ok related =>
      obtain rfl := Option.some.inj hs
      refine ⟨_, rfl, rfl, related, ⟨"", ?_, ?_⟩, ⟨".", rfl, rfl⟩⟩
      · exact String.append_empty.symm
      · exact String.append_empty.symm

/-- What is inside an item corresponds to something inside the same item of a list in another form,
where the same is wrong. -/
theorem IsInItem.exists_matching {key : String} {template item : Value} {i j : Nat}
    (hshape : Schema.HasShape schema)
    (hkeys : ((Schema.rootFields schema).flatMap (gathered "key")).Nodup)
    (ha : IsOpen limits c (Schema.rootFields schema) a) (hkey : a.getOrNull "key" = .text key)
    (shown : isShown limits a c = isShown limits a c') (agree : AgreeBeside key c c')
    (blind : IsSelfBlind limits key a) (hitem : itemAt? c key i = itemAt? c' key j)
    (h : IsInItem limits c a template (item, i) t) :
    ∃ u, IsInItem limits c' a template (item, j) u ∧ u.message? limits = t.message? limits ∧
      ∃ rest, t.name = itemName key i ++ rest ∧ u.name = itemName key j ++ rest := by
  obtain ⟨hshown, htemplate, hentry, s, hs, hwalk⟩ := h
  have hfits := (ha.fits hshape.fits).template template htemplate
  have hblind : ∀ f ∈ template.owned, IsBlind limits key f := fun f hf =>
    ⟨hkey ▸ ha.key_ne_of_mem_template hshape hkeys htemplate hf, blind template htemplate f hf⟩
  have hplain := hasComputed_of_mem_items hentry
  have hentry' : (item, j) ∈ (ownSpot c' a).items.zipIdx :=
    (mem_items_iff hkey hplain).2 (hitem ▸ (mem_items_iff hkey hplain).1 hentry)
  obtain ⟨s', hs', hmatches⟩ := agree.exists_item a template hs (j := j)
  have hfield : s.field = template := (Spot.item?_eq_some hs).1
  rw [keyText_eq hkey] at hmatches
  have hwalks := hmatches.walk (hfield ▸ hblind) (hfield ▸ hfits)
  obtain ⟨n, hn, rfl⟩ := List.getElem_of_mem hwalk
  have hn' := hwalks.length_eq ▸ hn
  obtain ⟨hu, hmessage⟩ := hwalks.get hn hn'
  exact ⟨_, ⟨shown ▸ hshown, htemplate, hentry', s', hs', List.getElem_mem hn'⟩, hmessage, hu.name⟩

/-- A field outside all items that is visited is inside shown sections only. -/
theorem Enclosed.isOpen_of_visited {owners : List Value}
    (h : Enclosed (Schema.rootFields schema) owners a) (hshape : Schema.HasShape schema)
    (hfree : IsBracketFree ((Schema.rootFields schema).flatMap (gathered "key")))
    (ha : Visited limits schema values (ownSpot values a)) :
    IsOpen limits values (Schema.rootFields schema) a := by
  rcases ha.isOpen_or_bracket with ⟨hopen, -⟩ | ⟨hbracket, -⟩
  · exact hopen
  · obtain ⟨key, -, hkey⟩ := (h.fits hshape.fits).key
    rw [ownSpot, keyText_eq hkey] at hbracket
    exact absurd hbracket (hfree key (hkey ▸ h.mem_gathered))

/-- What is noted for an item is noted for the same item of a list in another form. -/
theorem HoldsLast.mem_of_item {key rest : String} {i j : Nat} {r r' : Report}
    {message : Option String} (hshape : Schema.HasShape schema)
    (hkeys : ((Schema.rootFields schema).flatMap (gathered "key")).Nodup)
    (hfree : IsBracketFree ((Schema.rootFields schema).flatMap (gathered "key")))
    (ha : IsOpen limits c (Schema.rootFields schema) a)
    (ha' : IsOpen limits c' (Schema.rootFields schema) a) (hkey : a.getOrNull "key" = .text key)
    (shown : isShown limits a c = isShown limits a c') (agree : AgreeBeside key c c')
    (blind : IsSelfBlind limits key a) (hitem : itemAt? c key i = itemAt? c' key j)
    (hr : HoldsLast limits (spots limits schema c) r)
    (hr' : HoldsLast limits (spots limits schema c') r')
    (h : (.text (itemName key i ++ rest), message) ∈ r) :
    (.text (itemName key j ++ rest), message) ∈ r' := by
  obtain ⟨t, m, hlast, hm, heq⟩ := (hr.mem_iff _).1 h
  obtain ⟨hname, rfl⟩ := Prod.mk.inj heq
  have hnames := (Value.text.inj hname).symm
  obtain ⟨template, item, hin⟩ :=
    isInItem_of_name hshape hkeys hfree ha hkey (mem_spots_iff.1 hlast.mem) hnames
  obtain ⟨u, hin', hmessage, rest', ht, hu⟩ :=
    hin.exists_matching hshape hkeys ha hkey shown agree blind hitem
  have hrest : rest' = rest := by
    rw [ht, String.ext_iff, String.toList_append, String.toList_append] at hnames
    exact String.ext (List.append_cancel_left hnames)
  have hspot := mem_spots_iff.2 (hin'.visited ha'.visited)
  have hlast' := isLast_of_nodup (nodup_spots hshape hkeys hfree) hspot
  exact (hr'.mem_iff _).2 ⟨u, _, hlast', hmessage.trans hm, by rw [hu, hrest]⟩

/-- In two forms that differ in nothing but the list of an array, an item that both lists have gets
the same messages under its own names, wherever it stands in the lists and whatever stands around
it. The array is visited in both forms, and is shown in both or in neither; nothing in its template
looks at its list. -/
theorem item_messages_alike {owners : List Value} {v v' : Entries} {key : String} {i j : Nat}
    {item : Value} {r r' : Report} (valid : Schema.problems schema = .ok [])
    (free : IsBracketFree ((Schema.rootFields schema).flatMap (gathered "key")))
    (place : Enclosed (Schema.rootFields schema) owners a) (named : a.getOrNull "key" = .text key)
    (visited : Visited limits schema v (ownSpot v a))
    (visited' : Visited limits schema v' (ownSpot v' a))
    (shown : isShown limits a v = isShown limits a v') (agree : AgreeBeside key v v')
    (blind : IsSelfBlind limits key a) (here : itemAt? v key i = some item)
    (there : itemAt? v' key j = some item) (returns : report limits schema v = .ok r)
    (returns' : report limits schema v' = .ok r') (rest : String) (message : Option String) :
    (.text (itemName key i ++ rest), message) ∈ r ↔
      (.text (itemName key j ++ rest), message) ∈ r' := by
  obtain ⟨hshape, -, hkeys, -⟩ := Schema.problems_eq_nil_iff.1 valid
  rw [report_eq hshape] at returns returns'
  have hr := holdsLast_of_foldlM returns
  have hr' := holdsLast_of_foldlM returns'
  have ha := place.isOpen_of_visited hshape free visited
  have ha' := place.isOpen_of_visited hshape free visited'
  have hitem := here.trans there.symm
  constructor
  · exact hr.mem_of_item hshape hkeys free ha ha' named shown agree blind hitem hr'
  · exact hr'.mem_of_item hshape hkeys free ha' ha named shown.symm agree.symm blind hitem.symm hr

/-- A number that is shown where `t` is true. -/
def guardedNumber : Value :=
  .ofFields [("id", .text "3"), ("key", .text "n"), ("type", .text "number"), ("label", .text "N"),
    ("visibleWhen", .text "t")]

def guardedPair : Value :=
  .ofFields [("id", .text "2"), ("key", .text "p"), ("type", .text "section"), ("label", .text "P"),
    ("children", .list [guardedNumber])]

def pairList : Value :=
  .ofFields [("id", .text "1"), ("key", .text "l"), ("type", .text "array"), ("label", .text "L"),
    ("of", guardedPair)]

def pairForm : Value :=
  .ofFields [("version", .int 1), ("fields", .list [pairList])]

/-- A pair of a flag, which is no field of the form, and a number that is not one. -/
def wrongPair (flag : Bool) : Value := .map [(.text "t", .bool flag), (.text "n", .text "x")]

def onePair : Entries := [(.text "l", .list [wrongPair true])]

/-- The pair comes after one that hides its number. -/
def twoPairs : Entries := [(.text "l", .list [wrongPair false, wrongPair true])]

theorem compile_flag :
    Expression.compile (.ok .standard) (.text "t") = .ok (some (.field "t")) := by
  cbv

theorem template_pairList : pairList.templateValue? = some guardedPair := by
  cbv

theorem owned_guardedPair : guardedPair.owned = [guardedPair, guardedNumber] := by
  cbv

theorem referencedKeys_null : Expression.referencedKeys (.ok .standard) .null = .ok [] := by
  cbv

theorem Ignores.of_null {source : Value} (h : source = .null) :
    Ignores (.ok .standard) k source := by
  intro keys hkeys
  obtain rfl := Except.ok.inj (referencedKeys_null.symm.trans (h ▸ hkeys))
  exact List.not_mem_nil

theorem isSelfBlind_pairList : IsSelfBlind (.ok .standard) "l" pairList := by
  have hguard : Expression.referencedKeys (.ok .standard) (.text "t") = .ok ["t"] :=
    Expression.referencedKeys_eq_ok_iff.2 ⟨_, compile_flag, by decide⟩
  rintro template ht f hf
  obtain rfl := Option.some.inj (template_pairList.symm.trans ht)
  rw [owned_guardedPair] at hf
  simp only [List.mem_cons, List.not_mem_nil, or_false] at hf
  rcases hf with rfl | rfl
  · exact .of_null (by cbv)
  · have hsource : guardedNumber.getOrNull "visibleWhen" = .text "t" := by cbv
    intro keys hkeys
    obtain rfl := Except.ok.inj (hguard.symm.trans (hsource ▸ hkeys))
    simp

theorem isBracketFree_pairForm :
    IsBracketFree ((Schema.rootFields pairForm).flatMap (gathered "key")) := by
  have hkeys : (Schema.rootFields pairForm).flatMap (gathered "key") =
      [.text "l", .text "p", .text "n"] := by cbv
  rw [hkeys]
  simp [IsBracketFree]

theorem AgreeBeside.of_head (k : String) (w w' : Value) (es : Entries) :
    AgreeBeside k ((.text k, w) :: es) ((.text k, w') :: es) := by
  intro key hkey
  have hne : (Value.text key).same (.text k) = false :=
    Bool.eq_false_iff.2 fun h => hkey (Value.text.inj (Value.same_text_iff.1 h)).symm
  simp [valueAt, Entries.get?, hne]

theorem enclosed_pairList : Enclosed (Schema.rootFields pairForm) [] pairList := by
  have hroots : Schema.rootFields pairForm = [pairList] := by cbv
  exact .here (hroots ▸ List.mem_singleton_self _)

/-- A field among the fields of the form itself is always visited. -/
theorem Enclosed.visited_of_root (h : Enclosed (Schema.rootFields schema) [] a) :
    Visited limits schema values (ownSpot values a) :=
  h.visited (fun _ hs => absurd hs List.not_mem_nil) fun _ hg => .root (List.mem_map_of_mem hg)

theorem problems_pairForm : Schema.problems pairForm = .ok [] := by
  cbv

theorem report_onePair : report (.ok .standard) pairForm onePair =
    .ok [(.text "l", none), (.text "l[0]", none), (.text "l[0].n", some numberMessage)] := by
  cbv

theorem report_twoPairs : report (.ok .standard) pairForm twoPairs =
    .ok [(.text "l", none), (.text "l[0]", none), (.text "l[0].n", none), (.text "l[1]", none),
      (.text "l[1].n", some numberMessage)] := by
  cbv

/-- The wrong pair is first in one list and second in another, where it gets the same messages. -/
theorem wrong_pair_alike :
    ∃ r r', report (.ok .standard) pairForm onePair = .ok r ∧
      report (.ok .standard) pairForm twoPairs = .ok r' ∧
      (.text "l[1].n", some numberMessage) ∈ r' ∧
      ∀ rest message, (.text (itemName "l" 0 ++ rest), message) ∈ r ↔
        (.text (itemName "l" 1 ++ rest), message) ∈ r' := by
  have hshown : isShown (.ok .standard) pairList onePair = .ok true := by cbv
  have hshown' : isShown (.ok .standard) pairList twoPairs = .ok true := by cbv
  have hkey : pairList.getOrNull "key" = .text "l" := by cbv
  have hitem : itemAt? onePair "l" 0 = some (wrongPair true) := by cbv
  have hitem' : itemAt? twoPairs "l" 1 = some (wrongPair true) := by cbv
  refine ⟨_, _, report_onePair, report_twoPairs, by simp, fun rest message => ?_⟩
  exact item_messages_alike problems_pairForm isBracketFree_pairForm enclosed_pairList hkey
    enclosed_pairList.visited_of_root enclosed_pairList.visited_of_root
    (hshown.trans hshown'.symm) (.of_head "l" _ _ _) isSelfBlind_pairList hitem hitem'
    report_onePair report_twoPairs rest message

/-- A list of numbers that is shown unless it is what `c` gives. -/
def shyList : Value :=
  .ofFields [("id", .text "1"), ("key", .text "a"), ("type", .text "array"), ("label", .text "A"),
    ("visibleWhen", .text "a!=c"), ("of", sharingItem)]

def shyForm : Value :=
  .ofFields [("version", .int 1), ("fields", .list [shyList])]

def shyValues (items : List Value) : Entries :=
  [(.text "a", .list items), (.text "c", .list [.text "x"])]

theorem isBracketFree_shyForm :
    IsBracketFree ((Schema.rootFields shyForm).flatMap (gathered "key")) := by
  have hkeys : (Schema.rootFields shyForm).flatMap (gathered "key") = [.text "a", .text "b"] := by
    cbv
  rw [hkeys]
  simp [IsBracketFree]

theorem enclosed_shyList : Enclosed (Schema.rootFields shyForm) [] shyList := by
  have hroots : Schema.rootFields shyForm = [shyList] := by cbv
  exact .here (hroots ▸ List.mem_singleton_self _)

theorem isSelfBlind_shyList : IsSelfBlind (.ok .standard) "a" shyList := by
  have htemplate : shyList.templateValue? = some sharingItem := by cbv
  have howned : sharingItem.owned = [sharingItem] := by cbv
  rintro template ht f hf
  obtain rfl := Option.some.inj (htemplate.symm.trans ht)
  obtain rfl := List.mem_singleton.1 (howned ▸ hf)
  exact .of_null (by cbv)

theorem problems_shyForm : Schema.problems shyForm = .ok [] := by
  cbv

theorem report_shyForm :
    report (.ok .standard) shyForm (shyValues [.text "x", .text "y"]) =
      .ok [(.text "a", none), (.text "a[0]", some numberMessage),
        (.text "a[1]", some numberMessage)] := by
  cbv

theorem report_hidden_shyForm :
    report (.ok .standard) shyForm (shyValues [.text "x"]) = .ok [(.text "a", none)] := by
  cbv

/-- The list itself may look at its items. Both forms visit it, but one of them hides it, so that
its first item has no message there. -/
theorem item_hidden_with_list :
    Schema.problems shyForm = .ok [] ∧
      IsBracketFree ((Schema.rootFields shyForm).flatMap (gathered "key")) ∧
      Enclosed (Schema.rootFields shyForm) [] shyList ∧
      shyList.getOrNull "key" = .text "a" ∧
      (∀ items, Visited (.ok .standard) shyForm (shyValues items)
        (ownSpot (shyValues items) shyList)) ∧
      AgreeBeside "a" (shyValues [.text "x", .text "y"]) (shyValues [.text "x"]) ∧
      IsSelfBlind (.ok .standard) "a" shyList ∧
      itemAt? (shyValues [.text "x", .text "y"]) "a" 0 = some (.text "x") ∧
      itemAt? (shyValues [.text "x"]) "a" 0 = some (.text "x") ∧
      ∃ r r', report (.ok .standard) shyForm (shyValues [.text "x", .text "y"]) = .ok r ∧
        report (.ok .standard) shyForm (shyValues [.text "x"]) = .ok r' ∧
        (.text (itemName "a" 0 ++ ""), some numberMessage) ∈ r ∧
        (.text (itemName "a" 0 ++ ""), some numberMessage) ∉ r' := by
  have hname : itemName "a" 0 ++ "" = "a[0]" := by decide
  have hitem : itemAt? (shyValues [.text "x", .text "y"]) "a" 0 = some (.text "x") := by cbv
  have hitem' : itemAt? (shyValues [.text "x"]) "a" 0 = some (.text "x") := by cbv
  exact ⟨problems_shyForm, isBracketFree_shyForm, enclosed_shyList, by cbv,
    fun _ => enclosed_shyList.visited_of_root, .of_head "a" _ _ _, isSelfBlind_shyList, hitem,
    hitem', _, _, report_shyForm, report_hidden_shyForm, by simp [hname], by simp [hname]⟩

end Form

end FormDesigner
