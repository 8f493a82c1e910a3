import FormDesigner.Proofs.Field.Differences
import FormDesigner.Schema.Changes

/-!
# The outline of a forest

The outline lists every field of a forest with the id of its owner and its position there, each field
before its branches. Where no id occurs twice, the outline is what a schema is indexed by, a field is
found in it under its owner and its position, and a tree can be told by it. The rank of a field among
the others of an outline is its position.
-/

namespace FormDesigner

namespace Value

/-- Induction on forests, the branches of the first field being a forest of their own. -/
theorem forest_induction {motive : List Value → Prop} (nil : motive [])
    (cons : ∀ v vs, motive v.branches → motive vs → motive (v :: vs)) (vs : List Value) :
    motive vs := by
  have hcons : ∀ v vs, motive vs → motive (v :: vs) := by
    intro v
    induction v using branches_induction with
    | node v ih =>
        intro vs hvs
        refine cons v vs ?_ hvs
        have hall : ∀ ws, ws ⊆ v.branches → motive ws := by
          intro ws hws
          induction ws with
          | nil => exact nil
          | cons w ws ihws =>
              rw [List.cons_subset] at hws
              exact ih w hws.1 ws (ihws hws.2)
        exact hall v.branches (List.Subset.refl _)
  induction vs with
  | nil => exact nil
  | cons v vs ih => exact hcons v vs ih

end Value

namespace Schema

/-! ### Lists whose items are related pair by pair -/

section Pairs

variable {α β γ : Type} {R : α → β → Prop} {xs : List α} {ys : List β}

theorem map_eq_of_forall₂ {f : α → γ} {g : β → γ} (h : List.Forall₂ R xs ys)
    (hR : ∀ x ∈ xs, ∀ y ∈ ys, R x y → f x = g y) : xs.map f = ys.map g := by
  induction h with
  | nil => rfl
  | cons hxy _ ih =>
      rw [List.map_cons, List.map_cons, hR _ (.head _) _ (.head _) hxy,
        ih fun x hx y hy => hR x (.tail _ hx) y (.tail _ hy)]

theorem exists_of_forall₂ (h : List.Forall₂ R xs ys) {x : α} (hx : x ∈ xs) : ∃ y ∈ ys, R x y := by
  induction h with
  | nil => cases hx
  | cons hxy _ ih =>
      rcases List.mem_cons.1 hx with rfl | hx
      · exact ⟨_, .head _, hxy⟩
      · obtain ⟨y, hy, h⟩ := ih hx
        exact ⟨y, .tail _ hy, h⟩

end Pairs

/-! ### Outlines -/

open Value (gathered forest_induction)
open FormDesigner.Field (ofValue)

/-- The id of a located field. -/
def Located.id (l : Located) : Value := l.field.getOrNull "id"

mutual

def outlineField (owner : Value) (position : Nat) : Field → List Located
  | .node v children template =>
    ⟨v, owner, position⟩ :: (outlineFields (v.getOrNull "id") 0 children
      ++ outlineTemplate (v.getOrNull "id") template)

def outlineFields (owner : Value) (position : Nat) : List Field → List Located
  | [] => []
  | f :: fs => outlineField owner position f ++ outlineFields owner (position + 1) fs

def outlineTemplate (owner : Value) : Option Field → List Located
  | none => []
  | some (.node v children template) =>
    if v.isMap then outlineField owner 0 (.node v children template) else []

end

/-- The outline of fields that one owner has from a position on. -/
def outlineFrom (owner : Value) (position : Nat) (vs : List Value) : List Located :=
  outlineFields owner position (vs.map ofValue)

/-- The outline of the fields at the root. -/
abbrev outline (vs : List Value) : List Located := outlineFrom .null 0 vs

variable {owner id : Value} {i j : Nat} {v w : Value} {vs ws : List Value} {l m : Located}

@[simp] theorem outlineFrom_nil : outlineFrom owner i [] = [] := rfl

private theorem outlineField_ofValue : outlineField owner i (ofValue v) =
    ⟨v, owner, i⟩ :: outlineFrom (v.getOrNull "id") 0 v.branches := by
  rw [Field.ofValue_eq, outlineField]
  congr 1
  by_cases hsection : v.isSection = true
  · rw [Value.templateValue?_of_isSection hsection, Option.map_none, outlineTemplate,
      List.append_nil, Value.branches_of_isSection hsection]
    rfl
  · rw [Value.childValues_of_not_isSection hsection, Value.branches_of_not_isSection hsection,
      Value.fieldTemplate]
    cases v.templateValue? with
    | none => rfl
    | some t =>
        rw [Option.map_some, Field.ofValue_eq, outlineTemplate, ← Field.ofValue_eq]
        by_cases ht : t.isMap = true
        · rw [if_pos ht, Option.filter_some_pos ht]
          exact (List.append_nil _).symm
        · rw [if_neg ht, Option.filter_some_neg (Bool.eq_false_iff.2 ht)]
          rfl

theorem outlineFrom_cons : outlineFrom owner i (v :: vs) = ⟨v, owner, i⟩ ::
    (outlineFrom (v.getOrNull "id") 0 v.branches ++ outlineFrom owner (i + 1) vs) := by
  rw [outlineFrom, List.map_cons, outlineFields, outlineField_ofValue, List.cons_append]
  rfl

theorem outlineFrom_append : outlineFrom owner i (vs ++ ws) =
    outlineFrom owner i vs ++ outlineFrom owner (i + vs.length) ws := by
  induction vs generalizing i with
  | nil => rfl
  | cons v vs ih =>
      rw [List.cons_append, outlineFrom_cons, outlineFrom_cons, ih, List.length_cons,
        Nat.add_right_comm, Nat.add_assoc i]
      simp only [List.cons_append, List.append_assoc]

theorem outlineFrom_eq_flatMap : outlineFrom owner i vs = (vs.zipIdx i).flatMap fun e =>
    ⟨e.1, owner, e.2⟩ :: outlineFrom (e.1.getOrNull "id") 0 e.1.branches := by
  induction vs generalizing i with
  | nil => rfl
  | cons v vs ih => rw [outlineFrom_cons, ih, List.zipIdx_cons, List.flatMap_cons, List.cons_append]

theorem map_field_outlineFrom (owner : Value) (i : Nat) (vs : List Value) :
    (outlineFrom owner i vs).map Located.field = vs.flatMap Value.owned := by
  induction vs using forest_induction generalizing owner i with
  | nil => rfl
  | cons v vs ihBranches ih =>
      rw [outlineFrom_cons, List.map_cons, List.map_append, ihBranches, ih, List.flatMap_cons,
        Value.owned_eq_branches, List.cons_append]

theorem map_id_outlineFrom (owner : Value) (i : Nat) (vs : List Value) :
    (outlineFrom owner i vs).map Located.id = vs.flatMap (gathered "id") := by
  have h := congrArg (List.map fun v => v.getOrNull "id") (map_field_outlineFrom owner i vs)
  rw [List.map_map, List.map_flatMap] at h
  exact h

/-- Every field that a forest owns stands in its outline. -/
theorem field_mem_of_mem (hl : l ∈ outlineFrom owner i vs) :
    l.field ∈ vs.flatMap Value.owned := by
  rw [← map_field_outlineFrom owner i]
  exact List.mem_map_of_mem hl

theorem id_mem_of_mem (hl : l ∈ outlineFrom owner i vs) :
    l.id ∈ vs.flatMap (gathered "id") := by
  rw [← map_id_outlineFrom owner i]
  exact List.mem_map_of_mem hl

/-! ### Owners and positions -/

/-- An outline has exactly the fields that it starts from and the branches of its fields. -/
theorem mem_outlineFrom_iff : l ∈ outlineFrom owner i vs ↔
    (l.owner = owner ∧ ∃ k, l.position = i + k ∧ vs[k]? = some l.field) ∨
      ∃ m ∈ outlineFrom owner i vs, l.owner = m.id ∧
        m.field.branches[l.position]? = some l.field := by
  induction vs using forest_induction generalizing owner i with
  | nil => simp
  | cons v vs ihBranches ih =>
      rw [outlineFrom_cons]
      constructor
      · intro hl
        rcases List.mem_cons.1 hl with rfl | hl
        · exact .inl ⟨rfl, 0, rfl, rfl⟩
        rcases List.mem_append.1 hl with hl | hl
        · rcases ihBranches.1 hl with ⟨howner, k, hk, hfield⟩ | ⟨m, hm, hlm⟩
          · rw [Nat.zero_add] at hk
            exact .inr ⟨_, .head _, howner, hk ▸ hfield⟩
          · exact .inr ⟨m, .tail _ (List.mem_append_left _ hm), hlm⟩
        · rcases ih.1 hl with ⟨howner, k, hk, hfield⟩ | ⟨m, hm, hlm⟩
          · exact .inl ⟨howner, k + 1, by omega, hfield⟩
          · exact .inr ⟨m, .tail _ (List.mem_append_right _ hm), hlm⟩
      · rintro (⟨howner, k, hk, hfield⟩ | ⟨m, hm, howner, hfield⟩)
        · cases k with
          | zero =>
              obtain rfl := Option.some.inj hfield
              obtain ⟨field, _, position⟩ := l
              obtain rfl : position = i := hk
              exact howner ▸ .head _
          | succ k =>
              refine .tail _ (List.mem_append_right _ (ih.2 (.inl ⟨howner, k, ?_, hfield⟩)))
              omega
        · rcases List.mem_cons.1 hm with rfl | hm
          · refine .tail _ (List.mem_append_left _ (ihBranches.2 (.inl ⟨howner, _, ?_, hfield⟩)))
            omega
          rcases List.mem_append.1 hm with hm | hm
          · exact .tail _ (List.mem_append_left _ (ihBranches.2 (.inr ⟨m, hm, howner, hfield⟩)))
          · exact .tail _ (List.mem_append_right _ (ih.2 (.inr ⟨m, hm, howner, hfield⟩)))

theorem mem_outlineFrom_of_getElem? {k : Nat} (h : vs[k]? = some v) :
    ⟨v, owner, k⟩ ∈ outlineFrom owner 0 vs :=
  mem_outlineFrom_iff.2 (.inl ⟨rfl, k, (Nat.zero_add k).symm, h⟩)

theorem mem_outlineFrom_of_branches (hv : v ∈ vs)
    (hl : l ∈ outlineFrom (v.getOrNull "id") 0 v.branches) : l ∈ outlineFrom owner 0 vs := by
  obtain ⟨k, hk⟩ := List.mem_iff_getElem?.1 hv
  rw [outlineFrom_eq_flatMap]
  exact List.mem_flatMap.2 ⟨(v, k), List.mk_mem_zipIdx_iff_getElem?.2 hk, .tail _ hl⟩

/-- An owner that an outline does not start from is one of its fields. -/
theorem owner_of_mem (hl : l ∈ outlineFrom owner i vs) :
    l.owner = owner ∧ i ≤ l.position ∨ l.owner ∈ vs.flatMap (gathered "id") := by
  rcases mem_outlineFrom_iff.1 hl with ⟨howner, k, hk, -⟩ | ⟨m, hm, howner, -⟩
  · exact .inl ⟨howner, by omega⟩
  · exact .inr (howner ▸ id_mem_of_mem hm)

/-- Of two fields with one owner, the second one stands behind the first. -/
def Rises (l m : Located) : Prop := l.owner = m.owner → l.position < m.position

/-- Where ids differ, siblings stand in the order of their positions. -/
theorem outlineFrom_rises (howner : owner ∉ vs.flatMap (gathered "id"))
    (hids : (vs.flatMap (gathered "id")).Nodup) : (outlineFrom owner i vs).Pairwise Rises := by
  induction vs using forest_induction generalizing owner i with
  | nil => exact .nil
  | cons v vs ihBranches ih =>
      rw [List.flatMap_cons, Value.gathered_eq_branches] at howner hids
      obtain ⟨hnodup, hnodup', hdisjoint⟩ := List.nodup_append'.1 hids
      obtain ⟨hid, hbelow⟩ := List.nodup_cons.1 hnodup
      rw [List.mem_append, not_or] at howner
      -- Everything in the outline of the branches has an owner among the ids of the field.
      have hinside : ∀ l ∈ outlineFrom (v.getOrNull "id") 0 v.branches,
          l.owner ∈ v.getOrNull "id" :: v.branches.flatMap (gathered "id") := by
        intro l hl
        rcases owner_of_mem hl with ⟨h, -⟩ | h
        · exact h ▸ .head _
        · exact .tail _ h
      rw [outlineFrom_cons, List.pairwise_cons, List.pairwise_append]
      refine ⟨fun m hm heq => ?_, ihBranches hid hbelow, ih howner.2 hnodup', ?_⟩
      · have heq : owner = m.owner := heq
        rcases List.mem_append.1 hm with hm | hm
        · exact absurd (heq ▸ hinside m hm) howner.1
        · rcases owner_of_mem hm with ⟨-, hle⟩ | hmem
          · exact hle
          · exact absurd (heq ▸ hmem) howner.2
      · intro l hl m hm heq
        have howned := hinside l hl
        rcases owner_of_mem hm with ⟨h, -⟩ | hmem
        · exact absurd (h ▸ heq ▸ howned) howner.1
        · exact absurd (heq ▸ hmem) (hdisjoint howned)

/-! ### Ranks -/

/-- What owns a field: nothing at the root, and else a field with a text as its id. -/
def IsOwner (owner : Value) : Prop := owner = .null ∨ ∃ s, owner = .text s

theorem IsOwner.same_iff (h : IsOwner owner) : id.same owner = true ↔ id = owner := by
  rcases h with rfl | ⟨s, rfl⟩
  · cases id <;> simp [Value.same, Value.sameNan, Value.equals, Value.asQuantity?]
  · exact Value.same_text_right_iff

theorem IsOwner.equals_iff (h : IsOwner owner) : id.equals owner = true ↔ id = owner := by
  rcases h with rfl | ⟨s, rfl⟩
  · cases id <;> simp [Value.equals, Value.asQuantity?]
  · exact Value.equals_text_right_iff

/-- The index of what an outline lists. -/
def index (ls : List Located) : FieldIndex := ls.map fun l => (l.id, l)

theorem map_fst_index (ls : List Located) : (index ls).map Prod.fst = ls.map Located.id := by
  rw [index, List.map_map]
  rfl

theorem rank_index (ls : List Located) (l : Located) : (index ls).rank l =
    (ls.filter fun e => e.owner.same l.owner && decide (e.position < l.position)).length := by
  rw [FieldIndex.rank, index, List.filter_map, List.length_map]
  rfl

variable {ls ms : List Located}

/-- Where siblings stand in order, the rank of a field is the number of siblings before it. -/
theorem rank_of_rises {before after : List Located}
    (hrises : (before ++ l :: after).Pairwise Rises) (howner : IsOwner l.owner) :
    (index (before ++ l :: after)).rank l =
      (before.map Located.owner).countP fun o => o.same l.owner := by
  rw [List.pairwise_append, List.pairwise_cons] at hrises
  obtain ⟨-, ⟨hafter, -⟩, hbefore⟩ := hrises
  have hnone : after.filter (fun e => e.owner.same l.owner && decide (e.position < l.position)) =
      [] := by
    refine List.filter_eq_nil_iff.2 fun e he => ?_
    rw [Bool.and_eq_true, howner.same_iff, decide_eq_true_iff]
    rintro ⟨heq, hlt⟩
    have hle := hafter e he heq.symm
    omega
  have hall : before.filter (fun e => e.owner.same l.owner && decide (e.position < l.position)) =
      before.filter fun e => e.owner.same l.owner := by
    refine List.filter_congr fun e he => ?_
    rw [Bool.and_eq_left_iff_imp, howner.same_iff, decide_eq_true_iff]
    exact hbefore e he _ (.head _)
  rw [rank_index, List.filter_append, List.filter_cons_of_neg (by simp), hnone, hall,
    List.append_nil, List.countP_map, List.countP_eq_length_filter]
  rfl

theorem rank_getElem (hrises : ls.Pairwise Rises) {k : Nat} (hk : k < ls.length)
    (howner : IsOwner ls[k].owner) : (index ls).rank ls[k] =
      ((ls.map Located.owner).take k).countP fun o => o.same ls[k].owner := by
  have hsplit := List.take_append_drop k ls
  rw [List.drop_eq_getElem_cons hk] at hsplit
  have h := rank_of_rises (hsplit.symm ▸ hrises) howner
  rwa [hsplit, List.map_take] at h

/-- In lists with the same owners, fields have the same ranks. -/
theorem rank_eq_of_owners (howners : ls.map Located.owner = ms.map Located.owner)
    (hls : ls.Pairwise Rises) (hms : ms.Pairwise Rises) (hall : ∀ l ∈ ls, IsOwner l.owner) {k : Nat}
    (hk : k < ls.length) (hk' : k < ms.length) : (index ls).rank ls[k] = (index ms).rank ms[k] := by
  have howner : ls[k].owner = ms[k].owner := by
    have h := congrArg (fun os => os[k]?) howners
    rw [List.getElem?_map, List.getElem?_map, List.getElem?_eq_getElem hk,
      List.getElem?_eq_getElem hk'] at h
    exact Option.some.inj h
  have hk'' := hall _ (List.getElem_mem hk)
  rw [rank_getElem hls hk hk'', rank_getElem hms hk' (howner ▸ hk''), howners, howner]

private theorem exists_before (hl : l ∈ outlineFrom owner 0 vs)
    (hj : j < l.position) : ∃ e ∈ outlineFrom owner 0 vs, e.owner = l.owner ∧ e.position = j := by
  have hearlier : ∀ ws : List Value, ws[l.position]? = some l.field → ∃ w, ws[j]? = some w := by
    intro ws hws
    obtain ⟨hlt, -⟩ := List.getElem?_eq_some_iff.1 hws
    exact ⟨_, List.getElem?_eq_getElem (hj.trans hlt)⟩
  rcases mem_outlineFrom_iff.1 hl with ⟨howner, k, hk, hfield⟩ | ⟨m, hm, howner, hfield⟩
  · rw [Nat.zero_add] at hk
    obtain ⟨w, hw⟩ := hearlier vs (hk ▸ hfield)
    exact ⟨⟨w, owner, j⟩, mem_outlineFrom_iff.2 (.inl ⟨rfl, j, (Nat.zero_add j).symm, hw⟩),
      howner.symm, rfl⟩
  · obtain ⟨w, hw⟩ := hearlier _ hfield
    exact ⟨⟨w, m.id, j⟩, mem_outlineFrom_iff.2 (.inr ⟨m, hm, rfl, hw⟩), howner.symm, rfl⟩

/-- In an outline, the rank of a field is its position. -/
theorem rank_outlineFrom (hrises : (outlineFrom owner 0 vs).Pairwise Rises)
    (hl : l ∈ outlineFrom owner 0 vs) (howner : IsOwner l.owner) :
    (index (outlineFrom owner 0 vs)).rank l = l.position := by
  rw [rank_index]
  generalize hfound : (outlineFrom owner 0 vs).filter _ = found
  have hmem : ∀ e, e ∈ found ↔ e ∈ outlineFrom owner 0 vs ∧ e.owner = l.owner ∧
      e.position < l.position := by
    intro e
    rw [← hfound, List.mem_filter, Bool.and_eq_true, howner.same_iff, decide_eq_true_iff]
  have hnodup : (found.map Located.position).Nodup := by
    have hsub : found.Pairwise Rises := hfound ▸ hrises.filter _
    refine List.pairwise_map.2 (hsub.imp_of_mem fun {a b} ha hb hab => ?_)
    have hlt := hab (((hmem a).1 ha).2.1.trans ((hmem b).1 hb).2.1.symm)
    omega
  have hperm : (found.map Located.position).Perm (List.range l.position) := by
    refine (List.perm_ext_iff_of_nodup hnodup List.nodup_range).2 fun j => ?_
    rw [List.mem_range, List.mem_map]
    constructor
    · rintro ⟨e, he, rfl⟩
      exact ((hmem e).1 he).2.2
    · intro hj
      obtain ⟨e, he, heq, rfl⟩ := exists_before hl hj
      exact ⟨e, (hmem e).2 ⟨he, heq, hj⟩, rfl⟩
  rw [← List.length_map Located.position, hperm.length_eq, List.length_range]

end Schema

end FormDesigner
