import FormDesigner.Proofs.Field.Rearranging
import FormDesigner.Proofs.Schema.Unchanged

/-!
# Changes since a snapshot

A snapshot holds what JSON keeps of a schema, in which no difference shows. So as long as fields keep all
that they have besides their children, what is told of the changes since then is what would be told of
the changes from the schema itself.

An edit adds, removes or moves something under one owner. In the outlines before and after everything
else is the same, children aside. So what is told of the edit is what was added or removed, with all
that it owns, or the siblings between the two positions of a move.
-/

namespace FormDesigner

namespace Json

open Difference (Unseen ArePlain)

/-- What JSON keeps of a value that it can carry shows no difference. -/
theorem image_unseen {v : Value} (hv : v.IsJson) (sorted : Bool) : Unseen (image sorted v) v := by
  induction hv with
  | scalar hscalar node =>
      rw [image_of_scalar hscalar node]
      exact .refl (Value.IsJson.undated (.scalar hscalar node))
  | @list xs items ih =>
      rw [image_list]
      by_cases plain : ArePlain (xs.map (image sorted)) xs
      · refine .plainList plain (List.forall₂_map_left_iff.2 (List.forall₂_same.2 fun x hx => ?_))
        have hplain := plain x (List.mem_append_right _ hx)
        have hunseen := ih x hx
        generalize image sorted x = y at hunseen ⊢
        cases hunseen with
        | data _ _ same => exact same
        | _ => cases hplain
      · exact .list plain (List.forall₂_map_left_iff.2 (List.forall₂_same.2 ih))
  | tuple node | set node => exact node.elim
  | @map es names keys values ih =>
      have hget : ∀ n, (image sorted (.map es)).get? n = ((Value.map es).get? n).map (image sorted) :=
        get?_image (.map names keys values)
      rw [image_map] at hget ⊢
      refine .map fun n _ => ?_
      have hn := hget n
      rw [Value.get?_map, Value.get?_map] at hn
      rw [hn]
      cases hv : Entries.get? es (.text n) with
      | none => exact .none
      | some w => exact .some (ih _ (Entries.mem_of_get?_eq_some hv))

end Json

namespace Schema

open Difference (Unseen attributes)
open Forest (Spliced)

variable {old new v w : Value} {k l m : Located} {ks ls ms : List Located}

/-- What a field owns makes no difference to its attributes. -/
theorem attributes_eq_of_bare {es : Entries} (hv : v.isMap = true) (h : v.bare = w.bare) :
    attributes es v.entriesOf = attributes es w.entriesOf := by
  have hw : w.isMap = true := by rwa [← Value.isMap_bare, ← h, Value.isMap_bare]
  obtain ⟨fs, rfl⟩ := Value.exists_eq_map hv
  obtain ⟨gs, rfl⟩ := Value.exists_eq_map hw
  have hrest : Difference.withoutOwned fs = Difference.withoutOwned gs := by
    rw [Difference.withoutOwned_eq, Difference.withoutOwned_eq, Value.map.inj h]
  change attributes es fs = attributes es gs
  rw [attributes, hrest, attributes]

theorem attributes_self (hv : v.Fits) (hv' : v.IsJson) :
    attributes v.entriesOf v.entriesOf = [] := by
  obtain ⟨es, rfl⟩ := Value.exists_eq_map hv.isMap
  refine (hv.attributes_eq_nil_iff hv hv'.isProper hv'.isProper).2 fun n _ _ => ?_
  cases hx : Entries.get? es (.text n) with
  | none => exact .none
  | some x => exact .some (.refl (Value.IsJson.undated (hv'.get? (n := n) hx)))

/-- Fields of two outlines that have the same id are the same but for their owners, their positions
and their children. -/
def AreAlike (ls ms : List Located) : Prop :=
  ∀ l ∈ ls, ∀ m ∈ ms, l.id = m.id → l.field.bare = m.field.bare

/-- A field that rests has the type and the key that it had. -/
theorem Rests.caption_eq (h : Rests l m) (hl : l.field.Fits) (hm : m.field.Fits)
    (hproper : l.field.IsProper) (hproper' : m.field.IsProper) :
    l.field.caption = m.field.caption := by
  have hattributes := h.attributes
  obtain ⟨type, htype⟩ := hl.exists_type
  obtain ⟨key, -, hkey⟩ := hl.key
  obtain ⟨es, hes⟩ := Value.exists_eq_map hl.isMap
  obtain ⟨fs, hfs⟩ := Value.exists_eq_map hm.isMap
  rw [hes] at hl hproper hattributes htype hkey ⊢
  rw [hfs] at hm hproper' hattributes ⊢
  have hrel := (hl.attributes_eq_nil_iff hm hproper hproper').1 hattributes
  have htypes := Difference.getOrNull_eq_of_rel htype
    (hrel "type" (by decide) (by decide +kernel))
  have hkeys := Difference.getOrNull_eq_of_rel hkey (hrel "key" (by decide) (by decide +kernel))
  rw [Value.caption, Value.caption, Value.textAt, Value.textAt, htypes, hkeys, Value.textAt,
    Value.textAt]

theorem IsSound.image_json (h : IsSound .json old) : IsSound .json (Json.image true old) :=
  h.image true fun _ h => by cases h

theorem outline_image (h : IsSound .json old) : List.Forall₂ Rests
    (outline (rootFields (Json.image true old))) (outline (rootFields old)) := by
  have hnew := h.image_json
  have hfields := isIn_rootFields h.isIn
  refine outlineFrom_of_unseen ?_
    (fun v hv => ⟨isIn_rootFields hnew.isIn v hv, hnew.shape.fits v hv⟩)
    fun v hv => ⟨hfields v hv, h.shape.fits v hv⟩
  rw [rootFields_image h.isIn]
  exact List.forall₂_map_left_iff.2 (List.forall₂_same.2 fun v hv =>
    Json.image_unseen (hfields v hv) true)

theorem filter_of_rests {p q : Located → Bool} (hrests : List.Forall₂ Rests ks ls)
    (hpq : ∀ k l, Rests k l → p k = q l) : List.Forall₂ Rests (ks.filter p) (ls.filter q) :=
  List.rel_filter (fun k l h => Bool.eq_iff_iff.1 (hpq k l h)) hrests

section Congruence

variable (hks : IsOutline .json ks) (hls : IsOutline .json ls) (hms : IsOutline .json ms)
  (hrests : List.Forall₂ Rests ks ls)
include hks hls hms hrests

private theorem isSome_get?_of_rests (hm : m ∈ ms) :
    ((index ks).get? m.id).isSome = ((index ls).get? m.id).isSome := by
  have hids : ks.map Located.id = ls.map Located.id :=
    map_eq_of_forall₂ hrests fun _ _ _ _ h => h.id
  rw [Bool.eq_iff_iff, isSome_get?_iff hms hks hm, isSome_get?_iff hms hls hm, hids]

private theorem common_of_rests : common ms ks = common ms ls :=
  List.filter_congr fun _ hm => isSome_get?_of_rests hks hls hms hrests hm

private theorem lacking_of_rests : lacking ms ks = lacking ms ls :=
  List.filter_congr fun _ hm => by
    rw [← Option.not_isSome, ← Option.not_isSome, isSome_get?_of_rests hks hls hms hrests hm]

/-- The same is told of a field, whether it is compared with what was there or with what rests
there. -/
private theorem linesOf_of_rests (h : AreAlike ls ms) (hm : m ∈ ms) :
    linesOf ks ms m = linesOf ls ms m := by
  by_cases hfound : m.id ∈ ks.map Located.id
  · obtain ⟨k, hk, hid⟩ := List.mem_map.1 hfound
    obtain ⟨l, hl, hkl⟩ := exists_of_forall₂ hrests hk
    have hid' : l.id = m.id := hkl.id.symm.trans hid
    have hchanged : changedLine l m = [] := by
      rw [changedLine_eq_nil_iff, ← attributes_eq_of_bare (hls.fits l hl).isMap (h l hl m hm hid')]
      exact attributes_self (hls.fits l hl) (hls.isIn l hl)
    have hchanged' : changedLine k m = [] := by
      rw [changedLine_eq_nil_iff, ← attributes_eq_of_bare (hls.fits l hl).isMap (h l hl m hm hid')]
      exact hkl.attributes
    have hcommon : List.Forall₂ Rests (common ks ms) (common ls ms) :=
      filter_of_rests hrests fun _ _ h => by rw [h.id]
    have hrank : (index (common ks ms)).rank k = (index (common ls ms)).rank l := by
      rw [rank_index, rank_index]
      refine (filter_of_rests hcommon fun _ _ h => ?_).length_eq
      rw [h.owner, hkl.owner, h.position, hkl.position]
    rw [linesOf, linesOf, get?_index_of_mem hks hk hid.symm, get?_index_of_mem hls hl hid'.symm]
    dsimp only
    rw [commonLines, commonLines, hchanged, hchanged', movedLine, movedLine, hkl.owner, hkl.position,
      hrank, common_of_rests hks hls hms hrests]
  · have hmissing := mt (isSome_get?_iff hms hks hm).1 hfound
    have hmissing' := isSome_get?_of_rests hks hls hms hrests hm ▸ hmissing
    rw [Bool.not_eq_true, Option.isSome_eq_false_iff, Option.isNone_iff_eq_none] at hmissing hmissing'
    rw [linesOf, linesOf, hmissing, hmissing']

end Congruence

/-- Of fields that are alike, a description tells the same if it starts from what JSON keeps of a
schema. -/
theorem describeChanges_image (hold : IsSound .json old) (hnew : IsSound .json new)
    (h : AreAlike (outline (rootFields old)) (outline (rootFields new))) :
    describeChanges (Json.image true old) new = describeChanges old new := by
  have hrests := outline_image hold
  have hks := hold.image_json.isOutline
  have hls := hold.isOutline
  have hms := hnew.isOutline
  rw [describeChanges_eq hold.image_json hnew rfl rfl, describeChanges_eq hold hnew rfl rfl]
  generalize outline (rootFields (Json.image true old)) = ks at hrests hks ⊢
  generalize outline (rootFields old) = ls at hrests hls h ⊢
  generalize outline (rootFields new) = ms at hms h ⊢
  have hremoved : (lacking ks ms).map removedLine = (lacking ls ms).map removedLine := by
    have hlacking : List.Forall₂ Rests (lacking ks ms) (lacking ls ms) :=
      filter_of_rests hrests fun _ _ h => by rw [h.id]
    refine map_eq_of_forall₂ hlacking fun k hk l hl h => ?_
    have hk := List.mem_of_mem_filter hk
    have hl := List.mem_of_mem_filter hl
    rw [removedLine, removedLine, h.caption_eq (hks.fits k hk) (hls.fits l hl)
      (hks.isIn k hk).isProper (hls.isIn l hl).isProper]
  have hlines : (common ms ls).flatMap (linesOf ks ms) = (common ms ls).flatMap (linesOf ls ms) :=
    List.flatMap_congr fun m hm =>
      linesOf_of_rests hks hls hms hrests h (List.mem_of_mem_filter hm)
  rw [lacking_of_rests hks hls hms hrests, hremoved, common_of_rests hks hls hms hrests, hlines]

/-! ### Changes under one owner -/

variable {owner : Value} {i j : Nat} {x : Value} {vs us ws xs ys cs : List Value}
  {news : List Located}

/-- A field keeps its owner and all that it has besides its children. -/
structure Keeps (l m : Located) : Prop where
  owner : l.owner = m.owner
  bare : l.field.bare = m.field.bare

/-- A field keeps its position as well. -/
structure Remains (l m : Located) : Prop extends Keeps l m where
  position : l.position = m.position

theorem Keeps.refl (l : Located) : Keeps l l := ⟨rfl, rfl⟩

theorem Keeps.symm (h : Keeps l m) : Keeps m l := ⟨h.owner.symm, h.bare.symm⟩

theorem Keeps.id (h : Keeps l m) : l.id = m.id := by
  rw [Located.id, ← Value.getOrNull_bare (by decide), h.bare, Value.getOrNull_bare (by decide)]
  rfl

theorem Remains.refl (l : Located) : Remains l l := ⟨.refl l, rfl⟩

theorem Remains.symm (h : Remains l m) : Remains m l := ⟨h.toKeeps.symm, h.position.symm⟩

theorem Keeps.stays (h : Keeps l m) (hl : l.field.Fits) (hl' : l.field.IsJson) : Stays l m := by
  refine ⟨h.id, h.owner, ?_⟩
  rw [← attributes_eq_of_bare hl.isMap h.bare]
  exact attributes_self hl hl'

private theorem forall₂_symm {R : Located → Located → Prop} (hR : ∀ l m, R l m → R m l)
    (h : List.Forall₂ R ls ms) : List.Forall₂ R ms ls :=
  List.Forall₂.flip (h.imp fun l m => hR l m)

/-! ### Outlines around one owner -/

/-- Two outlines have `xs` and `ys` under one owner and the same fields everywhere else. -/
inductive SameAround (xs ys : List Value) (ls ms : List Located) : Prop
  | intro (owner : Value) (before after before' after' : List Located)
      (left : ls = before ++ outlineFrom owner 0 xs ++ after)
      (right : ms = before' ++ outlineFrom owner 0 ys ++ after')
      (remainBefore : List.Forall₂ Remains before before')
      (remainAfter : List.Forall₂ Remains after after')

namespace SameAround

theorem outlines (xs ys : List Value) : SameAround xs ys (outline xs) (outline ys) :=
  .intro .null [] [] [] [] (List.append_nil _).symm (List.append_nil _).symm .nil .nil

theorem symm (h : SameAround xs ys ls ms) : SameAround ys xs ms ls := by
  obtain ⟨owner, before, after, before', after', left, right, remainBefore, remainAfter⟩ := h
  exact ⟨owner, before', after', before, after, right, left,
    forall₂_symm (fun _ _ h => h.symm) remainBefore,
    forall₂_symm (fun _ _ h => h.symm) remainAfter⟩

/-- Where one section got other children, the outlines differ under that section alone. -/
theorem inside {a b : List Value}
    (h : SameAround (a ++ v :: b) (a ++ v.put "children" (.list cs) :: b) ls ms)
    (hv : v.isSection = true) : SameAround v.childValues cs ls ms := by
  obtain ⟨owner, before, after, before', after', rfl, rfl, remainBefore, remainAfter⟩ := h
  have hput : (v.put "children" (.list cs)).isSection = true := by
    rwa [Value.isSection_put (by decide)]
  have hid : (v.put "children" (.list cs)).getOrNull "id" = v.getOrNull "id" :=
    Value.getOrNull_put_of_ne (by decide)
  have hself : Remains ⟨v, owner, 0 + a.length⟩
      ⟨v.put "children" (.list cs), owner, 0 + a.length⟩ :=
    ⟨⟨rfl, Value.bare_put_children.symm⟩, rfl⟩
  have hrefl : ∀ ks : List Located, List.Forall₂ Remains ks ks := fun ks =>
    List.forall₂_same.2 fun l _ => .refl l
  refine ⟨v.getOrNull "id", before ++ outlineFrom owner 0 a ++ [⟨v, owner, 0 + a.length⟩],
    outlineFrom owner (0 + a.length + 1) b ++ after,
    before' ++ outlineFrom owner 0 a ++ [⟨v.put "children" (.list cs), owner, 0 + a.length⟩],
    outlineFrom owner (0 + a.length + 1) b ++ after', ?_, ?_, ?_, ?_⟩
  · rw [outlineFrom_append, outlineFrom_cons, Value.branches_of_isSection hv]
    simp only [List.append_assoc, List.cons_append, List.nil_append]
  · rw [outlineFrom_append, outlineFrom_cons, Value.branches_of_isSection hput, hid,
      Value.childValues_put_children hv]
    simp only [List.append_assoc, List.cons_append, List.nil_append]
  · exact List.rel_append (List.rel_append remainBefore (hrefl _)) (.cons hself .nil)
  · exact List.rel_append (hrefl _) remainAfter

/-- A change in one place is a change among the siblings there. -/
theorem spliced (h : SameAround vs us ls ms) (hspliced : Spliced w ws vs us) :
    ∃ a b, SameAround (a ++ w :: b) (a ++ ws ++ b) ls ms := by
  induction hspliced with
  | here a b => exact ⟨a, b, h⟩
  | inside a b hsection _ ih => exact ih (h.inside hsection)

/-- Giving other children to a section changes something under that section alone. -/
theorem of_children (hspliced : Spliced w [w.put "children" (.list cs)] vs us)
    (hw : w.isSection = true) : SameAround w.childValues cs (outline vs) (outline us) := by
  obtain ⟨a, b, h⟩ := (outlines vs us).spliced hspliced
  rw [List.append_assoc, List.singleton_append] at h
  exact h.inside hw

end SameAround

/-! ### Additions and removals -/

/-- Where siblings start to count makes no difference but to their positions. -/
theorem outlineFrom_keeps (owner : Value) (i j : Nat) (vs : List Value) :
    List.Forall₂ Keeps (outlineFrom owner i vs) (outlineFrom owner j vs) := by
  induction vs generalizing i j with
  | nil => exact .nil
  | cons v vs ih =>
      rw [outlineFrom_cons, outlineFrom_cons]
      refine .cons ⟨rfl, rfl⟩ (List.rel_append ?_ (ih _ _))
      exact List.forall₂_same.2 fun l _ => .refl l

/-- An outline has certain fields besides those of another, in one place. -/
inductive Inserts (ls news ms : List Located) : Prop
  | intro (before after before' after' : List Located) (left : ls = before ++ after)
      (right : ms = before' ++ news ++ after') (keepsBefore : List.Forall₂ Keeps before before')
      (keepsAfter : List.Forall₂ Keeps after after')

theorem SameAround.inserts {a b : List Value} (h : SameAround (a ++ b) (a ++ x :: b) ls ms) :
    ∃ owner i, Inserts ls (outlineFrom owner i [x]) ms := by
  obtain ⟨owner, before, after, before', after', rfl, rfl, remainBefore, remainAfter⟩ := h
  refine ⟨owner, 0 + a.length, before ++ outlineFrom owner 0 a,
    outlineFrom owner (0 + a.length) b ++ after, before' ++ outlineFrom owner 0 a,
    outlineFrom owner (0 + a.length + 1) b ++ after', ?_, ?_, ?_, ?_⟩
  · rw [outlineFrom_append]
    simp only [List.append_assoc]
  · rw [List.append_cons, outlineFrom_append, outlineFrom_append, List.length_append,
      List.length_singleton]
    simp only [List.append_assoc, Nat.add_assoc]
  · exact List.rel_append (remainBefore.imp fun _ _ h => h.toKeeps) (outlineFrom_keeps owner 0 0 a)
  · exact List.rel_append (outlineFrom_keeps ..) (remainAfter.imp fun _ _ h => h.toKeeps)

/-- What an outline has besides another is what the other lacks. -/
theorem Inserts.tells (hls : IsOutline .json ls) (hms : IsOutline .json ms)
    (h : Inserts ls news ms) : lacking ls ms = [] ∧ lacking ms ls = news ∧
      List.Forall₂ Keeps (common ls ms) (common ms ls) := by
  obtain ⟨before, after, before', after', left, right, keepsBefore, keepsAfter⟩ := h
  have hkeeps : List.Forall₂ Keeps ls (before' ++ after') :=
    left ▸ List.rel_append keepsBefore keepsAfter
  have hids : ls.map Located.id = (before' ++ after').map Located.id :=
    map_eq_of_forall₂ hkeeps fun _ _ _ _ h => h.id
  have hperm : ms.Perm (before' ++ after' ++ news) := by
    rw [right, List.append_assoc, List.append_assoc]
    exact List.perm_append_comm.append_left before'
  have hnodup := (hperm.map Located.id).nodup_iff.1 hms.ids
  rw [List.map_append, List.nodup_append', ← hids] at hnodup
  -- Of the fields of the second outline, exactly the new ones have ids of their own.
  have hkept : ∀ m ∈ before' ++ after', m.id ∈ ls.map Located.id := fun m hm =>
    hids ▸ List.mem_map_of_mem hm
  have hnew : ∀ m ∈ news, m.id ∉ ls.map Located.id := fun m hm hmem =>
    hnodup.2.2 hmem (List.mem_map_of_mem hm)
  have hsub : ∀ l ∈ ls, l.id ∈ ms.map Located.id := by
    intro l hl
    rw [(hperm.map Located.id).mem_iff, List.map_append, ← hids]
    exact List.mem_append_left _ (List.mem_map_of_mem hl)
  obtain ⟨hbefore, hafter⟩ := List.forall_mem_append.1 hkept
  have hmem : ∀ m, m ∈ before' ∨ m ∈ news ∨ m ∈ after' → m ∈ ms := by
    intro m hm
    rwa [right, List.mem_append, List.mem_append, or_assoc]
  refine ⟨(lacking_eq_nil_iff hls hms).2 hsub, ?_, ?_⟩
  · have hlacking : ∀ m ∈ ms, ((index ls).get? m.id).isNone = true ↔ m.id ∉ ls.map Located.id :=
      fun m hm => isNone_get?_iff hms hls hm
    rw [lacking, right, List.filter_append, List.filter_append, List.filter_eq_nil_iff.2,
      List.filter_eq_self.2, List.filter_eq_nil_iff.2, List.nil_append, List.append_nil]
    · exact fun m hm hnone => (hlacking m (hmem m (.inr (.inr hm)))).1 hnone (hafter m hm)
    · exact fun m hm => (hlacking m (hmem m (.inr (.inl hm)))).2 (hnew m hm)
    · exact fun m hm hnone => (hlacking m (hmem m (.inl hm))).1 hnone (hbefore m hm)
  · have hcommon : ∀ m ∈ ms, ((index ls).get? m.id).isSome = true ↔ m.id ∈ ls.map Located.id :=
      fun m hm => isSome_get?_iff hms hls hm
    have heq : common ms ls = before' ++ after' := by
      rw [common, right, List.filter_append, List.filter_append, List.filter_eq_self.2,
        List.filter_eq_nil_iff.2, List.filter_eq_self.2, List.append_nil]
      · exact fun m hm => (hcommon m (hmem m (.inr (.inr hm)))).2 (hafter m hm)
      · exact fun m hm hsome => hnew m hm ((hcommon m (hmem m (.inr (.inl hm)))).1 hsome)
      · exact fun m hm => (hcommon m (hmem m (.inl hm))).2 (hbefore m hm)
    rwa [common_eq_self hls hms hsub, heq]

/-- Outlines in which the fields of the same id keep all that they have are alike. -/
theorem areAlike_of_keeps (hls : IsOutline .json ls) (hms : IsOutline .json ms)
    (h : List.Forall₂ Keeps (common ls ms) (common ms ls)) : AreAlike ls ms := by
  intro l hl m hm hid
  obtain ⟨m', hm', hkeeps⟩ := exists_of_forall₂ h
    ((mem_common_iff hls hms).2 ⟨hl, hid ▸ List.mem_map_of_mem hm⟩)
  rw [← hms.eq_of_id (List.mem_of_mem_filter hm') hm (hkeeps.id.symm.trans hid)]
  exact hkeeps.bare

/-- Where fields that two schemas have keep their owners and their order, only additions and removals
are told. -/
theorem describeChanges_of_keeps (hold : IsSound .json old) (hnew : IsSound .json new)
    (hls : outline (rootFields old) = ls) (hms : outline (rootFields new) = ms)
    (h : List.Forall₂ Keeps (common ls ms) (common ms ls)) :
    describeChanges (Json.image true old) new =
      .ok ((lacking ms ls).map addedLine ++ (lacking ls ms).map removedLine) := by
  have hls' : IsOutline .json ls := hls ▸ hold.isOutline
  have hms' : IsOutline .json ms := hms ▸ hnew.isOutline
  have halike : AreAlike ls ms := areAlike_of_keeps hls' hms' h
  have hfits : ∀ l ∈ common ls ms, l.field.Fits ∧ l.field.IsJson := fun l hl =>
    ⟨(hls'.filter _).fits l hl, (hls'.filter _).isIn l hl⟩
  have hstays : List.Forall₂ Stays (common ls ms) (common ms ls) :=
    ((List.forall₂_and_left _ _).2 ⟨hfits, h⟩).imp fun _ _ h => h.2.stays h.1.1 h.1.2
  rw [describeChanges_image hold hnew (hls ▸ hms ▸ halike), describeChanges_eq hold hnew hls hms,
    common_lines_of_stays hls' hms' hstays, List.append_nil]

/-- What is told of a field that was added: a line for each field that it owns. -/
def addedLines (v : Value) : List String := v.owned.map fun w => "Added " ++ w.caption

/-- What is told of a field that was removed. -/
def removedLines (v : Value) : List String := v.owned.map fun w => "Removed " ++ w.caption

private theorem map_caption (start : String) (owner : Value) (i : Nat) (v : Value) :
    (outlineFrom owner i [v]).map (fun l => start ++ l.field.caption) =
      v.owned.map fun w => start ++ w.caption := by
  have h := congrArg (List.map fun w : Value => start ++ w.caption)
    (map_field_outlineFrom owner i [v])
  rwa [List.map_map, List.flatMap_singleton] at h

section Changes

variable {a b : List Value} (hold : IsSound .json old) (hnew : IsSound .json new)
include hold hnew

theorem describeChanges_added
    (h : SameAround (a ++ b) (a ++ x :: b) (outline (rootFields old)) (outline (rootFields new))) :
    describeChanges (Json.image true old) new = .ok (addedLines x) := by
  obtain ⟨owner, i, hinserts⟩ := h.inserts
  obtain ⟨hremoved, hadded, hkeeps⟩ := hinserts.tells hold.isOutline hnew.isOutline
  rw [describeChanges_of_keeps hold hnew rfl rfl hkeeps, hadded, hremoved, List.map_nil,
    List.append_nil]
  exact congrArg Except.ok (map_caption "Added " owner i x)

theorem describeChanges_removed
    (h : SameAround (a ++ x :: b) (a ++ b) (outline (rootFields old)) (outline (rootFields new))) :
    describeChanges (Json.image true old) new = .ok (removedLines x) := by
  obtain ⟨owner, i, hinserts⟩ := h.symm.inserts
  obtain ⟨hadded, hremoved, hkeeps⟩ := hinserts.tells hnew.isOutline hold.isOutline
  rw [describeChanges_of_keeps hold hnew rfl rfl (forall₂_symm (fun _ _ h => h.symm) hkeeps), hadded,
    hremoved, List.map_nil, List.nil_append]
  exact congrArg Except.ok (map_caption "Removed " owner i x)

end Changes

/-! ### Moves -/

/-- What is told of a move: a line for each of the siblings between the two positions, in the order
that they have now. -/
def movedLines (xs : List Value) (i j : Nat) : List String :=
  ((moved xs i j).zipIdx.filter fun e => min i j ≤ e.2 && e.2 ≤ max i j).map fun e =>
    "Moved '" ++ e.1.textAt "key" ++ "' from position " ++ toString (formerPosition i j e.2)
      ++ " to " ++ toString e.2

private theorem map_filter_eq_flatMap {α β : Type} (p : α → Bool) (f : α → β) (as : List α) :
    (as.filter p).map f = as.flatMap fun a => if p a then [f a] else [] := by
  induction as with
  | nil => rfl
  | cons a as ih =>
      rw [List.filter_cons, List.flatMap_cons, ← ih]
      split
      · rw [List.map_cons, List.singleton_append]
      · rw [List.nil_append]

/-- In outlines of the same fields a field is told to have moved if its position has changed. -/
theorem linesOf_outline {l m : Located} (hls : IsOutline .json (outline xs))
    (hms : IsOutline .json (outline ys)) (hcommon : common (outline xs) (outline ys) = outline xs)
    (hcommon' : common (outline ys) (outline xs) = outline ys) (hl : l ∈ outline xs)
    (hm : m ∈ outline ys) (h : Keeps l m) : linesOf (outline xs) (outline ys) m =
      if l.position = m.position then [] else [movedLine l m] := by
  have hchanged : changedLine l m = [] :=
    changedLine_eq_nil_iff.2 (h.stays (hls.fits l hl) (hls.isIn l hl)).attributes
  have howner : l.owner.equals m.owner = true := (hms.owners m hm).equals_iff.2 h.owner
  rw [linesOf, get?_index_of_mem hls hl h.id.symm]
  dsimp only
  rw [hcommon, hcommon', commonLines, hchanged, howner,
    rank_outlineFrom hls.rises hl (hls.owners l hl), rank_outlineFrom hms.rises hm (hms.owners m hm)]
  by_cases hposition : l.position = m.position
  · simp [hposition]
  · simp [hposition]

section Moved

variable (hi : i < xs.length) (hj : j < xs.length)
include hi hj

/-- What stands below siblings that change places is not concerned. -/
theorem mem_outlineFrom_moved (hm : m ∈ outlineFrom owner 0 (moved xs i j)) :
    m ∈ outlineFrom owner 0 xs ∨ ∃ v k, m = ⟨v, owner, k⟩ ∧
      ⟨v, owner, formerPosition i j k⟩ ∈ outlineFrom owner 0 xs := by
  rw [outlineFrom_eq_flatMap] at hm
  obtain ⟨⟨v, k⟩, hv, hm⟩ := List.mem_flatMap.1 hm
  have hk := List.mk_mem_zipIdx_iff_getElem?.1 hv
  rw [getElem?_moved_eq hi hj] at hk
  rcases List.mem_cons.1 hm with rfl | hm
  · exact .inr ⟨v, k, rfl, mem_outlineFrom_of_getElem? hk⟩
  · exact .inl (mem_outlineFrom_of_branches (List.mem_of_getElem? hk) hm)

/-- No field is lost or changed by a move. -/
theorem SameAround.exists_keeps (h : SameAround xs (moved xs i j) ls ms) (hm : m ∈ ms) :
    ∃ l ∈ ls, Keeps l m := by
  obtain ⟨owner, before, after, before', after', rfl, rfl, remainBefore, remainAfter⟩ := h
  rw [List.append_assoc, List.mem_append, List.mem_append] at hm
  simp only [List.mem_append]
  rcases hm with hm | hm | hm
  · obtain ⟨l, hl, hremains⟩ := exists_of_forall₂ (forall₂_symm (fun _ _ h => h.symm) remainBefore) hm
    exact ⟨l, .inl (.inl hl), hremains.symm.toKeeps⟩
  · rcases mem_outlineFrom_moved hi hj hm with hl | ⟨v, k, rfl, hl⟩
    · exact ⟨m, .inl (.inr hl), .refl m⟩
    · exact ⟨_, .inl (.inr hl), rfl, rfl⟩
  · obtain ⟨l, hl, hremains⟩ := exists_of_forall₂ (forall₂_symm (fun _ _ h => h.symm) remainAfter) hm
    exact ⟨l, .inr hl, hremains.symm.toKeeps⟩

/-- Where nothing is told of fields that remain, something is told of siblings that change places
alone. -/
theorem SameAround.flatMap_moved (h : SameAround xs (moved xs i j) ls ms) : ∃ owner,
    (∀ v k, (moved xs i j)[k]? = some v →
      ⟨v, owner, formerPosition i j k⟩ ∈ ls ∧ ⟨v, owner, k⟩ ∈ ms) ∧
    ∀ g : Located → List String, (∀ l ∈ ls, ∀ m ∈ ms, Remains l m → g m = []) →
      ms.flatMap g = (moved xs i j).zipIdx.flatMap fun e => g ⟨e.1, owner, e.2⟩ := by
  obtain ⟨owner, before, after, before', after', rfl, rfl, remainBefore, remainAfter⟩ := h
  refine ⟨owner, fun v k hk => ⟨?_, ?_⟩, fun g hg => ?_⟩
  · rw [getElem?_moved_eq hi hj] at hk
    exact List.mem_append_left _ (List.mem_append_right _ (mem_outlineFrom_of_getElem? hk))
  · exact List.mem_append_left _ (List.mem_append_right _ (mem_outlineFrom_of_getElem? hk))
  · have hbefore : before'.flatMap g = [] := by
      refine List.flatMap_eq_nil_iff.2 fun m hm => ?_
      obtain ⟨l, hl, hremains⟩ :=
        exists_of_forall₂ (forall₂_symm (fun _ _ h => h.symm) remainBefore) hm
      exact hg l (List.mem_append_left _ (List.mem_append_left _ hl)) m
        (List.mem_append_left _ (List.mem_append_left _ hm)) hremains.symm
    have hafter : after'.flatMap g = [] := by
      refine List.flatMap_eq_nil_iff.2 fun m hm => ?_
      obtain ⟨l, hl, hremains⟩ :=
        exists_of_forall₂ (forall₂_symm (fun _ _ h => h.symm) remainAfter) hm
      exact hg l (List.mem_append_right _ hl) m (List.mem_append_right _ hm) hremains.symm
    rw [List.flatMap_append, List.flatMap_append, hbefore, hafter, List.nil_append, List.append_nil,
      outlineFrom_eq_flatMap, List.flatMap_assoc]
    refine List.flatMap_congr fun ⟨v, k⟩ hv => ?_
    have hbelow : (outlineFrom (v.getOrNull "id") 0 v.branches).flatMap g = [] := by
      refine List.flatMap_eq_nil_iff.2 fun m hm => ?_
      have hk := List.mk_mem_zipIdx_iff_getElem?.1 hv
      have hm' : m ∈ outlineFrom owner 0 (moved xs i j) :=
        mem_outlineFrom_of_branches (List.mem_of_getElem? hk) hm
      rw [getElem?_moved_eq hi hj] at hk
      have hm'' : m ∈ outlineFrom owner 0 xs :=
        mem_outlineFrom_of_branches (List.mem_of_getElem? hk) hm
      exact hg m (List.mem_append_left _ (List.mem_append_right _ hm'')) m
        (List.mem_append_left _ (List.mem_append_right _ hm')) (.refl m)
    rw [List.flatMap_cons, hbelow, List.append_nil]

theorem describeChanges_moved (hold : IsSound .json old) (hnew : IsSound .json new) (hij : i ≠ j)
    (h : SameAround xs (moved xs i j) (outline (rootFields old)) (outline (rootFields new))) :
    describeChanges (Json.image true old) new = .ok (movedLines xs i j) := by
  have hls := hold.isOutline
  have hms := hnew.isOutline
  have hlength := length_moved hi hj
  have hback : SameAround (moved xs i j) (moved (moved xs i j) j i) (outline (rootFields new))
      (outline (rootFields old)) := (moved_moved hi hj).symm ▸ h.symm
  have hleft : ∀ l ∈ outline (rootFields old), l.id ∈ (outline (rootFields new)).map Located.id := by
    intro l hl
    obtain ⟨m, hm, hkeeps⟩ := hback.exists_keeps (hlength.symm ▸ hj) (hlength.symm ▸ hi) hl
    exact hkeeps.id ▸ List.mem_map_of_mem hm
  have hright : ∀ m ∈ outline (rootFields new), m.id ∈ (outline (rootFields old)).map Located.id := by
    intro m hm
    obtain ⟨l, hl, hkeeps⟩ := h.exists_keeps hi hj hm
    exact hkeeps.id ▸ List.mem_map_of_mem hl
  have halike : AreAlike (outline (rootFields old)) (outline (rootFields new)) := by
    intro l hl m hm hid
    obtain ⟨l', hl', hkeeps⟩ := h.exists_keeps hi hj hm
    rw [hls.eq_of_id hl hl' (hid.trans hkeeps.id.symm)]
    exact hkeeps.bare
  have hcommon := common_eq_self hls hms hleft
  have hcommon' := common_eq_self hms hls hright
  obtain ⟨owner, hsiblings, hlines⟩ := h.flatMap_moved hi hj
  rw [describeChanges_image hold hnew halike, describeChanges_eq hold hnew rfl rfl,
    (lacking_eq_nil_iff hms hls).2 hright, (lacking_eq_nil_iff hls hms).2 hleft, hcommon', hlines]
  · rw [movedLines, map_filter_eq_flatMap]
    refine congrArg Except.ok (List.flatMap_congr fun ⟨v, k⟩ hv => ?_)
    obtain ⟨hl, hm⟩ := hsiblings v k (List.mk_mem_zipIdx_iff_getElem?.1 hv)
    rw [linesOf_outline hls hms hcommon hcommon' hl hm ⟨rfl, rfl⟩]
    dsimp only
    simp only [formerPosition_eq_iff hij, ← Bool.decide_and, decide_eq_true_iff, ite_not]
    rfl
  · intro l hl m hm hremains
    rw [linesOf_outline hls hms hcommon hcommon' hl hm hremains.toKeeps, if_pos hremains.position]

end Moved

end Schema

end FormDesigner
