import FormDesigner.Proofs.Schema.Describing

/-!
# Schemas without changes

A description of changes goes by ids, owners, ranks and attributes, a comparison goes through two
documents from the outside in. Both see the same: a tree can be built again from the owners and the
positions in its outline, so outlines that match belong to forests without a difference.
-/

namespace FormDesigner

namespace Schema

open Difference (Unseen attributes)
open Value (gathered forest_induction branches_induction)

variable {owner : Value} {i : Nat} {v w old new : Value} {vs ws : List Value} {l m : Located}
  {ls ms : List Located} {D E : Value.Domain}

/-! ### From forests to outlines -/

/-- A field stays where it is, at the same position. -/
structure Rests (l m : Located) : Prop extends Stays l m where
  position : l.position = m.position

private theorem getOrNull_id_eq (hv : v.Fits) (h : Unseen v w) :
    v.getOrNull "id" = w.getOrNull "id" := by
  obtain ⟨s, -, hs⟩ := hv.id
  obtain ⟨es, rfl⟩ := Value.exists_eq_map hv.isMap
  have hget : Entries.get? es (.text "id") = some (.text s) := Value.get?_of_getOrNull hs nofun
  have hid : w.get? "id" = some (.text s) := h.get?_text (by decide +kernel) hget
  rw [hs, Value.getOrNull, hid]
  rfl

/-- Forests without a difference have the same outlines. -/
theorem outlineFrom_of_unseen (h : List.Forall₂ Unseen vs ws)
    (hvs : ∀ v ∈ vs, v.IsJson ∧ v.Fits) (hws : ∀ w ∈ ws, w.IsJson ∧ w.Fits) :
    List.Forall₂ Rests (outlineFrom owner i vs) (outlineFrom owner i ws) := by
  induction vs using forest_induction generalizing owner i ws with
  | nil =>
      cases h
      exact .nil
  | cons v vs ihBranches ih =>
      cases h with
      | @cons _ w _ ws hvw hrest =>
          obtain ⟨hv, hvs⟩ := List.forall_mem_cons.1 hvs
          obtain ⟨hw, hws⟩ := List.forall_mem_cons.1 hws
          obtain ⟨hattributes, hbranches⟩ := (hv.2.unseen_iff hw.2 hv.1 hw.1).1 hvw
          have hid := getOrNull_id_eq hv.2 hvw
          rw [outlineFrom_cons, outlineFrom_cons, ← hid]
          refine .cons ⟨⟨hid, rfl, hattributes⟩, rfl⟩ (List.rel_append ?_ ?_)
          · exact ihBranches hbranches
              (fun c hc => ⟨hv.1.branches c hc, hv.2.branches c hc⟩)
              fun c hc => ⟨hw.1.branches c hc, hw.2.branches c hc⟩
          · exact ih hrest hvs hws

/-! ### From outlines to forests -/

/-- What an outline has under an owner are certain fields, each at its position. -/
def Bears (ls : List Located) (owner : Value) (vs : List Value) : Prop :=
  ∀ k v, ⟨v, owner, k⟩ ∈ ls ↔ vs[k]? = some v

theorem bears_roots (h : IsOutline D (outline vs)) : Bears (outline vs) .null vs := by
  intro k v
  rw [mem_outlineFrom_iff]
  constructor
  · rintro (⟨-, j, hk, hv⟩ | ⟨m, hm, hnull, -⟩)
    · obtain rfl : k = j := hk.trans (Nat.zero_add j)
      exact hv
    · obtain ⟨s, hs⟩ := h.exists_id hm
      cases hnull.trans hs
  · exact fun hv => .inl ⟨rfl, k, (Nat.zero_add k).symm, hv⟩

theorem bears_branches (h : IsOutline D (outline vs)) (hm : m ∈ outline vs) :
    Bears (outline vs) m.id m.field.branches := by
  obtain ⟨s, hs⟩ := h.exists_id hm
  intro k v
  rw [mem_outlineFrom_iff]
  constructor
  · rintro (⟨hnull, -⟩ | ⟨m', hm', hid, hv⟩)
    · cases hs.symm.trans hnull
    · rwa [h.eq_of_id hm hm' hid]
  · exact fun hv => .inr ⟨m, hm, rfl, hv⟩

theorem Bears.getElem? (h : Bears ls owner vs) (hl : l ∈ ls) (howner : l.owner = owner) :
    vs[l.position]? = some l.field := (h l.position l.field).1 (howner ▸ hl)

/-- Two outlines have the same fields in the same places, with the same attributes. -/
structure Match (ls ms : List Located) : Prop where
  left : ∀ l ∈ ls, ∃ m ∈ ms, Rests l m
  right : ∀ m ∈ ms, ∃ l ∈ ls, Rests l m

private theorem forall₂_of_getElem? {R : Value → Value → Prop}
    (h : ∀ k : Nat, Option.Rel R vs[k]? ws[k]?) : List.Forall₂ R vs ws := by
  induction vs generalizing ws with
  | nil =>
      cases ws with
      | nil => exact .nil
      | cons w ws => cases h 0
  | cons v vs ih =>
      cases ws with
      | nil => cases h 0
      | cons w ws => exact .cons (Option.rel_some_some.1 (h 0)) (ih fun k => h (k + 1))

/-- Where outlines match, an owner has as many fields in the one as in the other, and they match pair
by pair. -/
theorem Match.forall₂ {R : Value → Value → Prop} (h : Match ls ms) (hvs : Bears ls owner vs)
    (hws : Bears ms owner ws)
    (hR : ∀ l ∈ ls, ∀ m ∈ ms, l.field ∈ vs → Rests l m → R l.field m.field) :
    List.Forall₂ R vs ws := by
  refine forall₂_of_getElem? fun k => ?_
  cases hv : vs[k]? with
  | some v =>
      have hl := (hvs k v).2 hv
      obtain ⟨m, hm, hrests⟩ := h.left _ hl
      have hw : ws[m.position]? = some m.field := hws.getElem? hm hrests.owner.symm
      rw [← hrests.position] at hw
      rw [hw]
      exact .some (hR _ hl m hm (List.mem_of_getElem? hv) hrests)
  | none =>
      cases hw : ws[k]? with
      | none => exact .none
      | some w =>
          obtain ⟨l, hl, hrests⟩ := h.right _ ((hws k w).2 hw)
          have hv' : vs[l.position]? = some l.field := hvs.getElem? hl hrests.owner
          rw [hrests.position, hv] at hv'
          cases hv'

/-- Forests whose outlines match do not differ. -/
theorem unseen_of_match (hls : IsOutline .json (outline vs)) (hms : IsOutline .json (outline ws))
    (h : Match (outline vs) (outline ws)) : List.Forall₂ Unseen vs ws := by
  have hfields : ∀ v, ∀ l ∈ outline vs, ∀ m ∈ outline ws, l.field = v → Rests l m →
      Unseen l.field m.field := by
    intro v
    induction v using branches_induction with
    | node v ih =>
        rintro l hl m hm rfl hrests
        refine ((hls.fits l hl).unseen_iff (hms.fits m hm) (hls.isIn l hl) (hms.isIn m hm)).2
          ⟨hrests.attributes, ?_⟩
        have hbranches := bears_branches hms hm
        rw [← hrests.id] at hbranches
        exact h.forall₂ (bears_branches hls hl) hbranches fun l' hl' m' hm' hmem =>
          ih l'.field hmem l' hl' m' hm' rfl
  exact h.forall₂ (bears_roots hls) (bears_roots hms) fun l hl m hm _ => hfields _ l hl m hm rfl

/-! ### Whole schemas -/

/-- Sound schemas show no difference exactly if their fields show none, pair by pair. -/
theorem unseen_iff_rootFields (hold : IsSound .json old) (hnew : IsSound .json new) :
    Unseen old new ↔ List.Forall₂ Unseen (rootFields old) (rootFields new) := by
  have hversion : ∀ {v}, IsSound .json v → v.get? "version" = some (.int 1) := fun h =>
    Value.get?_of_getOrNull h.shape.version nofun
  have hfields : ∀ {v}, IsSound .json v → v.get? "fields" = some (.list (rootFields v)) := by
    intro v h
    refine Value.get?_of_getOrNull ?_ nofun
    exact (h.isIn.getOrNull trivial).eq_list h.shape.fields_eq
  have hother : ∀ {v}, IsSound .json v → ∀ n, n ≠ "version" → n ≠ "fields" → v.get? n = none := by
    intro v h n hn hn'
    cases hget : v.get? n with
    | none => rfl
    | some w =>
        obtain ⟨es, rfl⟩ := Value.exists_eq_map h.shape.isMap
        rcases h.shape.known _ (Entries.mem_of_get?_eq_some hget) with heq | heq
        · exact absurd (Value.text.inj heq) hn
        · exact absurd (Value.text.inj heq) hn'
  have hlists : Unseen (.list (rootFields old)) (.list (rootFields new)) ↔
      List.Forall₂ Unseen (rootFields old) (rootFields new) :=
    Difference.unseen_list_iff (fun v hv => (hold.shape.fits v hv).isMap)
      fun w hw => (hnew.shape.fits w hw).isMap
  have hmaps : Unseen old new ↔ ∀ n, Difference.isPrivate (.text n) = false →
      Option.Rel Unseen (old.get? n) (new.get? n) := by
    obtain ⟨es, rfl⟩ := Value.exists_eq_map hold.shape.isMap
    obtain ⟨fs, rfl⟩ := Value.exists_eq_map hnew.shape.isMap
    exact Unseen.map_iff
  rw [hmaps, ← hlists]
  constructor
  · intro h
    have hrel := h "fields" (by decide +kernel)
    rwa [hfields hold, hfields hnew, Option.rel_some_some] at hrel
  · intro h n _
    by_cases hn : n = "version"
    · rw [hn, hversion hold, hversion hnew]
      exact .some (.data rfl rfl (Value.same_scalar rfl))
    by_cases hn' : n = "fields"
    · rw [hn', hfields hold, hfields hnew]
      exact .some h
    · rw [hother hold n hn hn', hother hnew n hn hn']
      exact .none

/-- Nothing is told of outlines in which all fields stay. -/
theorem lines_eq_nil_of_stays (hls : IsOutline D ls) (hms : IsOutline E ms)
    (h : List.Forall₂ Stays ls ms) :
    lacking ms ls = [] ∧ lacking ls ms = [] ∧ (common ms ls).flatMap (linesOf ls ms) = [] := by
  have hids : ls.map Located.id = ms.map Located.id := map_eq_of_forall₂ h fun _ _ _ _ h => h.id
  have hleft : ∀ l ∈ ls, l.id ∈ ms.map Located.id := fun l hl => hids ▸ List.mem_map_of_mem hl
  have hright : ∀ m ∈ ms, m.id ∈ ls.map Located.id := fun m hm => hids ▸ List.mem_map_of_mem hm
  refine ⟨(lacking_eq_nil_iff hms hls).2 hright, (lacking_eq_nil_iff hls hms).2 hleft, ?_⟩
  refine common_lines_of_stays hls hms ?_
  rwa [common_eq_self hls hms hleft, common_eq_self hms hls hright]

/-- Outlines of which nothing is told match. -/
theorem match_of_lines_eq_nil (hls : IsOutline D (outline vs)) (hms : IsOutline E (outline ws))
    (hadded : lacking (outline ws) (outline vs) = [])
    (hremoved : lacking (outline vs) (outline ws) = [])
    (hlines : (common (outline ws) (outline vs)).flatMap (linesOf (outline vs) (outline ws)) = []) :
    Match (outline vs) (outline ws) := by
  rw [lacking_eq_nil_iff hms hls] at hadded
  rw [lacking_eq_nil_iff hls hms] at hremoved
  rw [common_eq_self hms hls hadded, List.flatMap_eq_nil_iff] at hlines
  have hrests : ∀ l ∈ outline vs, ∀ m ∈ outline ws, l.id = m.id → Rests l m := by
    intro l hl m hm hid
    have hnil := hlines m hm
    rw [linesOf, get?_index_of_mem hls hl hid.symm] at hnil
    dsimp only at hnil
    rw [common_eq_self hls hms hremoved, common_eq_self hms hls hadded,
      commonLines_outline_eq_nil_iff hls hms hl hm] at hnil
    exact ⟨⟨hid, hnil.2.1, hnil.1⟩, hnil.2.2⟩
  constructor
  · intro l hl
    obtain ⟨m, hm, hid⟩ := List.mem_map.1 (hremoved l hl)
    exact ⟨m, hm, hrests l hl m hm hid.symm⟩
  · intro m hm
    obtain ⟨l, hl, hid⟩ := List.mem_map.1 (hadded m hm)
    exact ⟨l, hl, hrests l hl m hm hid⟩

/-- What changed from one valid schema that JSON can carry to another can always be told, and there is
nothing to tell exactly if the two do not differ: fields that are matched by their ids, with their
owners, ranks and attributes, show all that a comparison of the whole documents shows, and nothing
else. -/
theorem describes_nothing_iff (hold : old.IsJson) (hnew : new.IsJson)
    (valid : problems old = .ok []) (valid' : problems new = .ok []) :
    ∃ lines, describeChanges old new = .ok lines ∧
      (lines = [] ↔ Difference.differ old new = false) := by
  have hsound := isSound_of_problems hold valid
  have hsound' := isSound_of_problems hnew valid'
  have hls := hsound.isOutline
  have hms := hsound'.isOutline
  refine ⟨_, describeChanges_eq hsound hsound' rfl rfl, ?_⟩
  rw [Difference.differ_eq_false_iff hold.undated hnew.undated, unseen_iff_rootFields hsound hsound',
    List.append_eq_nil_iff, List.append_eq_nil_iff, List.map_eq_nil_iff, List.map_eq_nil_iff]
  constructor
  · rintro ⟨⟨hadded, hremoved⟩, hlines⟩
    exact unseen_of_match hls hms (match_of_lines_eq_nil hls hms hadded hremoved hlines)
  · intro h
    have hrests : List.Forall₂ Rests (outline (rootFields old)) (outline (rootFields new)) :=
      outlineFrom_of_unseen h (fun x hx => ⟨isIn_rootFields hold x hx, hsound.shape.fits x hx⟩)
        fun x hx => ⟨isIn_rootFields hnew x hx, hsound'.shape.fits x hx⟩
    obtain ⟨hadded, hremoved, hlines⟩ :=
      lines_eq_nil_of_stays hls hms (hrests.imp fun _ _ h => h.toStays)
    exact ⟨⟨hadded, hremoved⟩, hlines⟩

/-- A schema with a section in an array, and two children in the section. -/
def nested (first second : String) : Value :=
  let field (name type : String) (owned : List (String × Value)) : Value :=
    .ofFields (Factory.basicField name name type (.text name) ++ owned)
  let children := [field first "text" [], field second "text" []]
  .ofFields [("version", .int 1), ("fields", .list
    [field "a" "array" [("of", field "t" "section" [("children", .list children)])]])]

theorem nested_isJson (first second : String) : (nested first second).IsJson := by
  have hfield : ∀ name type (owned : List (String × Value)), owned.length ≤ 1 →
      (∀ f ∈ owned, f.2.IsJson ∧ f.1 ∈ ["of", "children"]) →
        (Value.ofFields (Factory.basicField name name type (.text name) ++ owned)).IsJson := by
    intro name type owned hlength howned
    refine .ofFields ?_ (List.forall_mem_append.2
      ⟨Factory.basicField_isIn name name type (.text name), fun f hf => (howned f hf).1⟩)
    match owned, hlength with
    | [], _ => simp [Factory.basicField]
    | [f], _ =>
        have hname := (howned f (.head _)).2
        rw [List.mem_cons, List.mem_singleton] at hname
        rcases hname with hname | hname <;> simp [Factory.basicField, hname]
  have hone : (Value.int 1).IsJson := .scalar rfl (Value.isSome_integerText? (by decide))
  have hchild : ∀ name, (Value.ofFields
      (Factory.basicField name name "text" (.text name) ++ [])).IsJson := fun name =>
    hfield name "text" [] (Nat.zero_le _) (List.forall_mem_nil _)
  refine Value.IsIn.ofFields (by simp) ?_
  simp only [List.forall_mem_cons]
  refine ⟨hone, .list (List.forall_mem_singleton.2 (hfield _ _ _ (Nat.le_refl 1) ?_)),
    List.forall_mem_nil _⟩
  refine List.forall_mem_singleton.2 ⟨hfield _ _ _ (Nat.le_refl 1) ?_, .head _⟩
  refine List.forall_mem_singleton.2 ⟨.list ?_, .tail _ (.head _)⟩
  simp only [List.forall_mem_cons]
  exact ⟨hchild first, hchild second, List.forall_mem_nil _⟩

/-- Two children that change places are told of, in the template of an array as well. -/
theorem describes_swapped_children :
    ((nested "b" "c").IsJson ∧ (nested "c" "b").IsJson) ∧
      (problems (nested "b" "c") = .ok [] ∧ problems (nested "c" "b") = .ok []) ∧
        Difference.differ (nested "b" "c") (nested "c" "b") = true ∧
          ∃ lines, describeChanges (nested "b" "c") (nested "c" "b") = .ok lines ∧ lines ≠ [] := by
  have hvalid : problems (nested "b" "c") = .ok [] := by with_unfolding_all rfl
  have hvalid' : problems (nested "c" "b") = .ok [] := by with_unfolding_all rfl
  have hdiffer : Difference.differ (nested "b" "c") (nested "c" "b") = true := by decide +kernel
  obtain ⟨lines, hlines, hnil⟩ :=
    describes_nothing_iff (nested_isJson "b" "c") (nested_isJson "c" "b") hvalid hvalid'
  refine ⟨⟨nested_isJson "b" "c", nested_isJson "c" "b"⟩, ⟨hvalid, hvalid'⟩, hdiffer, lines, hlines,
    fun h => ?_⟩
  rw [hnil.1 h] at hdiffer
  cases hdiffer

end Schema

end FormDesigner
