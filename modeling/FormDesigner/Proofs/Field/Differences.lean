import FormDesigner.Proofs.Field.Copying
import FormDesigner.Proofs.Field.Fits
import FormDesigner.Proofs.Value.Unseen
import Mathlib.Data.Finset.Card

/-!
# Differences between fields

The attributes in which two fields differ are read off the changes between them: each change begins
at an attribute, and its name is the first step of the path. For fields that fit, no difference is lost
on the way. They share so many attributes that they are compared one by one, and no name of an attribute
is empty or holds a quote.

The children of a section and the template of an array are fields again; they are what a field owns
itself. Two fields that fit show no difference exactly if they show none in their attributes and none
between their branches, pair by pair.
-/

namespace FormDesigner

namespace Difference

open Value (text IsIn)

variable {v w : Value} {es fs : Entries} {n : String}

/-- A name that can be read off the path of a change. -/
def isLegible (n : String) : Bool := !(n.isEmpty || n.contains '\'' || n.contains '"')

theorem attribute?_eq_some {c : Change} {rest : List PathStep} (hn : isLegible n = true)
    (hc : c.path = .entry (text n) :: rest) : attribute? c = some n := by
  rw [isLegible, Bool.not_eq_true'] at hn
  rw [attribute?, hc]
  dsimp only
  rw [hn]
  rfl

private theorem path_of_betweenEntries {c : Change} (hc : c ∈ betweenEntries fs es) :
    ∃ k ∈ keysOf es, ∃ rest, c.path = .entry k :: rest := by
  induction es with
  | nil => simp [betweenEntries] at hc
  | cons e es ih =>
      obtain ⟨k, v⟩ := e
      rw [betweenEntries, List.mem_append] at hc
      have hkeys : keysOf es ⊆ keysOf ((k, v) :: es) :=
        ((List.sublist_cons_self (k, v) es).map Prod.fst).filter _ |>.subset
      rcases hc with hc | hc
      · split at hc
        · cases hc
        · next hshown =>
            split at hc
            · obtain ⟨d, -, rfl⟩ := List.mem_map.1 hc
              refine ⟨k, List.mem_filter.2 ⟨.head _, ?_⟩, d.path, rfl⟩
              rw [Bool.eq_false_iff.2 hshown]
              rfl
            · cases hc
      · obtain ⟨m, hm, rest, hrest⟩ := ih hc
        exact ⟨m, hkeys hm, rest, hrest⟩

/-- Mappings that are compared entry by entry differ at their keys. -/
theorem path_of_between_map (hfew : fewShared es fs = false) {c : Change}
    (hc : c ∈ between (.map es) (.map fs)) :
    ∃ k ∈ keysOf es ++ keysOf fs, ∃ rest, c.path = .entry k :: rest := by
  simp only [between, hfew, Bool.false_eq_true, if_false, List.mem_append, List.mem_map] at hc
  rcases hc with (⟨k, hk, rfl⟩ | ⟨k, hk, rfl⟩) | hc
  · exact ⟨k, List.mem_append_right _ (List.mem_of_mem_filter hk), [], rfl⟩
  · exact ⟨k, List.mem_append_left _ (List.mem_of_mem_filter hk), [], rfl⟩
  · obtain ⟨k, hk, rest, hrest⟩ := path_of_betweenEntries hc
    exact ⟨k, List.mem_append_left _ hk, rest, hrest⟩

/-- What all legible keys say of the changes is that there are none, or not. -/
theorem filterMap_attribute?_eq_nil_iff (hfew : fewShared es fs = false)
    (hkeys : ∀ k ∈ keysOf es ++ keysOf fs, ∃ n, k = text n ∧ isLegible n = true) :
    (between (.map es) (.map fs)).filterMap attribute? = [] ↔
      between (.map es) (.map fs) = [] := by
  refine ⟨fun h => ?_, fun h => by rw [h, List.filterMap_nil]⟩
  rw [List.filterMap_eq_nil_iff] at h
  refine List.eq_nil_iff_forall_not_mem.2 fun c hc => ?_
  obtain ⟨k, hk, rest, hpath⟩ := path_of_between_map hfew hc
  obtain ⟨n, rfl, hn⟩ := hkeys k hk
  have hnone := h c hc
  rw [attribute?_eq_some hn hpath] at hnone
  cases hnone

theorem attributes_eq_nil_iff_filterMap : attributes es fs = [] ↔
    (between (.map (withoutOwned es)) (.map (withoutOwned fs))).filterMap attribute? = [] := by
  unfold attributes
  dsimp only
  rw [← List.length_eq_zero_iff, List.length_mergeSort, List.length_eq_zero_iff]
  generalize (between _ _).filterMap attribute? = names
  cases names with
  | nil => simp
  | cons n names => simp [List.eraseDups_cons]

/-! ### Names that many mappings have in common -/

private theorem length_shownNames (hes : (Value.map es).IsIn .undated) :
    (shownNames es).length = (shownNames es).toFinset.card :=
  (List.toFinset_card_of_nodup (hes.names_nodup.filter _)).symm

private theorem length_shared (hes : (Value.map es).IsIn .undated) :
    (((shownNames es).map text).filter fun k => k.among ((shownNames fs).map text)).length =
      ((shownNames es).toFinset ∩ (shownNames fs).toFinset).card := by
  have hmem : ∀ n, (text n).among ((shownNames fs).map text) = decide (n ∈ shownNames fs) := by
    intro n
    rw [Bool.eq_iff_iff, Value.among_text_iff, decide_eq_true_iff]
    exact List.mem_map_of_injective fun _ _ => Value.text.inj
  have hnodup : ((shownNames es).filter fun n => decide (n ∈ shownNames fs)).Nodup :=
    (hes.names_nodup.filter _).filter _
  have hinter : ((shownNames es).filter fun n => decide (n ∈ shownNames fs)).toFinset =
      (shownNames es).toFinset ∩ (shownNames fs).toFinset := by
    ext n
    simp
  rw [List.filter_map, List.length_map, Function.comp_def]
  simp only [hmem]
  rw [← List.toFinset_card_of_nodup hnodup, hinter]

/-- Mappings that have at least a third of all names that can occur in common are compared entry by
entry. -/
theorem fewShared_eq_false_of_common (hes : (Value.map es).IsIn .undated)
    (hfs : (Value.map fs).IsIn .undated) (common possible : List String) (nodup : common.Nodup)
    (enough : leastShare * possible.length ≤ common.length * 100)
    (hcommon : ∀ n ∈ common, n ∈ shownNames es ∧ n ∈ shownNames fs)
    (hpossible : ∀ n, n ∈ shownNames es ∨ n ∈ shownNames fs → n ∈ possible) :
    fewShared es fs = false := by
  have hunion := Finset.card_union_add_card_inter (shownNames es).toFinset
    (shownNames fs).toFinset
  have hmost : ((shownNames es).toFinset ∪ (shownNames fs).toFinset).card ≤ possible.length := by
    refine (Finset.card_le_card fun n hn => ?_).trans (List.toFinset_card_le possible)
    rw [Finset.mem_union, List.mem_toFinset, List.mem_toFinset] at hn
    exact List.mem_toFinset.2 (hpossible n hn)
  have hleast : common.length ≤ ((shownNames es).toFinset ∩ (shownNames fs).toFinset).card := by
    rw [← List.toFinset_card_of_nodup nodup]
    refine Finset.card_le_card fun n hn => ?_
    rw [Finset.mem_inter, List.mem_toFinset, List.mem_toFinset]
    exact hcommon n (List.mem_toFinset.1 hn)
  unfold fewShared
  dsimp only
  rw [keysOf_eq hes, keysOf_eq hfs, length_shared hes, List.length_map, List.length_map,
    length_shownNames hes, length_shownNames hfs, ← hunion, Nat.add_sub_cancel,
    Bool.and_eq_false_imp]
  intro _
  have hmul := Nat.mul_le_mul_left leastShare hmost
  rw [decide_eq_false_iff_not]
  omega

/-! ### What a field does not own -/

theorem withoutOwned_eq (es : Entries) :
    withoutOwned es = Entries.erase (Entries.erase es (text "children")) (text "of") := by
  rw [withoutOwned, Entries.erase, Entries.erase, List.filter_filter]
  refine List.filter_congr fun e _ => ?_
  simp [owningAttributes, Bool.and_comm]

theorem get?_withoutOwned (hn : n ∉ owningAttributes) :
    Entries.get? (withoutOwned es) (text n) = Entries.get? es (text n) := by
  have hchildren : n ≠ "children" := fun h => hn (h ▸ .head _)
  have hof : n ≠ "of" := fun h => hn (h ▸ .tail _ (.head _))
  rw [withoutOwned_eq, Entries.get?_erase_of_ne hof, Entries.get?_erase_of_ne hchildren]

theorem get?_withoutOwned_of_mem (hn : n ∈ owningAttributes) :
    Entries.get? (withoutOwned es) (text n) = none := by
  rw [withoutOwned_eq]
  rcases List.mem_cons.1 hn with rfl | hn
  · rw [Entries.get?_erase_of_ne (by decide), Entries.get?_erase_self]
  · obtain rfl := List.mem_singleton.1 hn
    exact Entries.get?_erase_self

theorem isIn_withoutOwned {D : Value.Domain} (hes : (Value.map es).IsIn D) :
    (Value.map (withoutOwned es)).IsIn D := by
  rw [withoutOwned_eq]
  exact hes.erase.erase

end Difference

namespace Shape

/-- The names of all attributes that a field can have besides what it owns. -/
def plainNames : List String :=
  ["id", "key", "label", "placeholder", "helpText", "required", "defaultValue", "validation",
    "visibleWhen", "computed", "type", "options"]

theorem isLegible_of_mem_plainNames : ∀ n ∈ plainNames, Difference.isLegible n = true := by
  simp only [Difference.isLegible, String.contains_char_eq]
  decide +kernel

theorem declared_name {type : FieldType} {a : Attribute} (ha : a ∈ type.declared) :
    a.name ∈ plainNames ++ Difference.owningAttributes := by
  have hnames : ∀ n ∈ type.declared.map Attribute.name,
      n ∈ plainNames ++ Difference.owningAttributes := by
    cases type <;> decide
  exact hnames _ (List.mem_map_of_mem ha)

end Shape

namespace Value.Fits

open Difference

variable {es fs : Entries}

/-- A fitting field has no other names than those of attributes. -/
theorem name_mem (h : (Value.map es).Fits) {n : String} (hn : n ∈ Entries.names es) :
    n ∈ Shape.plainNames ++ owningAttributes := by
  cases h with
  | intro kind own =>
      obtain ⟨v, hv⟩ := Entries.mem_names_iff.1 hn
      obtain ⟨a, ha, hname⟩ := (Shape.attributes_eq_nil_iff.1 own).1 _ hv
      exact text.inj hname ▸ Shape.declared_name ha

private theorem mem_plainNames (h : (Value.map es).Fits) {n : String}
    (hn : n ∈ shownNames (withoutOwned es)) : n ∈ Shape.plainNames := by
  have hnames := (mem_shownNames_iff.1 hn).1
  have hget := Entries.get?_isSome_iff.2 hnames
  have hnot : n ∉ owningAttributes := fun hmem => by
    rw [get?_withoutOwned_of_mem hmem] at hget
    cases hget
  rw [get?_withoutOwned hnot, Entries.get?_isSome_iff] at hget
  exact (List.mem_append.1 (h.name_mem hget)).resolve_right hnot

/-- The attributes that every field has. -/
private theorem required_mem (h : (Value.map es).Fits) {n : String}
    (hn : n ∈ ["id", "key", "label", "type"]) : n ∈ shownNames (withoutOwned es) := by
  have hshown : ∀ n ∈ ["id", "key", "label", "type"],
      n ∉ owningAttributes ∧ isPrivate (.text n) = false := by decide +kernel
  have hsome : (Entries.get? es (.text n)).isSome = true := by
    cases h with
    | @intro _ type kind own =>
        obtain ⟨a, ha, hname, hrequired⟩ : ∃ a ∈ type.declared, a.name = n ∧ a.required = true := by
          have hshared : ∀ n ∈ ["id", "key", "label", "type"],
              ∃ a ∈ Shape.shared, a.name = n ∧ a.required = true := by decide
          obtain ⟨a, ha, h⟩ := hshared n hn
          exact ⟨a, List.mem_append_left _ ha, h⟩
        obtain ⟨v, hv⟩ := (Shape.attributes_eq_nil_iff.1 own).2.1 a ha hrequired
        rw [← hname, hv]
        rfl
  rw [mem_shownNames_iff, ← Entries.get?_isSome_iff, get?_withoutOwned (hshown n hn).1]
  exact ⟨hsome, (hshown n hn).2⟩

/-- No attribute is said to differ between two fields exactly if they show no difference in anything
that they do not own. -/
theorem attributes_eq_nil_iff (hv : (Value.map es).Fits) (hw : (Value.map fs).Fits)
    (hes : (Value.map es).IsProper) (hfs : (Value.map fs).IsProper) :
    attributes es fs = [] ↔ ∀ n, n ∉ owningAttributes → isPrivate (.text n) = false →
      Option.Rel Unseen (Entries.get? es (.text n)) (Entries.get? fs (.text n)) := by
  have hundated := isIn_withoutOwned (hv.undated hes)
  have hundated' := isIn_withoutOwned (hw.undated hfs)
  have hfew : fewShared (withoutOwned es) (withoutOwned fs) = false := by
    refine fewShared_eq_false_of_common hundated hundated' ["id", "key", "label", "type"]
      Shape.plainNames (by decide) (by decide) (fun n hn => ⟨hv.required_mem hn, hw.required_mem hn⟩) fun n hn => ?_
    exact hn.elim hv.mem_plainNames hw.mem_plainNames
  have hlegible : ∀ k ∈ keysOf (withoutOwned es) ++ keysOf (withoutOwned fs),
      ∃ n, k = .text n ∧ isLegible n = true := by
    intro k hk
    rw [keysOf_eq hundated, keysOf_eq hundated', ← List.map_append] at hk
    obtain ⟨n, hn, rfl⟩ := List.mem_map.1 hk
    have hplain := (List.mem_append.1 hn).elim hv.mem_plainNames hw.mem_plainNames
    exact ⟨n, rfl, Shape.isLegible_of_mem_plainNames n hplain⟩
  rw [attributes_eq_nil_iff_filterMap, filterMap_attribute?_eq_nil_iff hfew hlegible,
    between_eq_nil_iff hundated hundated', Unseen.map_iff]
  refine forall_congr' fun n => ?_
  by_cases hn : n ∈ owningAttributes
  · rw [get?_withoutOwned_of_mem hn, get?_withoutOwned_of_mem hn]
    exact iff_of_true (fun _ => .none) fun hnot => absurd hn hnot
  · rw [get?_withoutOwned hn, get?_withoutOwned hn]
    exact ⟨fun h _ => h, fun h => h hn⟩

end Value.Fits

/-! ### What a field owns itself -/

namespace Value

variable {v w : Value} {n : String}

/-- The children of a section, or the template of an array. -/
def branches (v : Value) : List Value := v.childValues ++ v.fieldTemplate

theorem mem_fieldTemplate_iff :
    w ∈ v.fieldTemplate ↔ v.templateValue? = some w ∧ w.isMap = true := by
  rw [fieldTemplate, Option.mem_toList, Option.filter_eq_some_iff]

theorem branches_of_isSection (hv : v.isSection = true) : v.branches = v.childValues := by
  rw [branches, fieldTemplate_of_isSection hv, List.append_nil]

theorem branches_of_not_isSection (hv : ¬ v.isSection = true) : v.branches = v.fieldTemplate := by
  rw [branches, childValues_of_not_isSection hv, List.nil_append]

theorem owned_eq_branches (v : Value) : v.owned = v :: v.branches.flatMap owned := by
  rw [owned_eq, branches, List.flatMap_append]

theorem gathered_eq_branches (n : String) (v : Value) :
    v.gathered n = v.getOrNull n :: v.branches.flatMap (gathered n) := by
  rw [gathered_eq, branches, List.flatMap_append]

/-- Induction on what a value owns, templates and children alike. -/
theorem branches_induction {motive : Value → Prop}
    (node : ∀ v, (∀ c ∈ v.branches, motive c) → motive v) (v : Value) : motive v := by
  induction v using owned_induction with
  | node v ihChildren ihTemplate =>
      refine node v fun c hc => ?_
      rcases List.mem_append.1 hc with hc | hc
      · exact ihChildren c hc
      · exact ihTemplate c (mem_fieldTemplate_iff.1 hc).1

theorem IsIn.branches {D : Domain} (hv : v.IsIn D) : ∀ c ∈ v.branches, c.IsIn D := by
  intro c hc
  rcases List.mem_append.1 hc with hc | hc
  · exact hv.childValues c hc
  · exact hv.templateValue? c (mem_fieldTemplate_iff.1 hc).1

namespace Fits

theorem branches (h : v.Fits) : ∀ c ∈ v.branches, c.Fits := by
  intro c hc
  rcases List.mem_append.1 hc with hc | hc
  · exact h.children c hc
  · exact h.template c (mem_fieldTemplate_iff.1 hc).1

theorem owned (h : v.Fits) : ∀ w ∈ v.owned, w.Fits := by
  induction v using branches_induction with
  | node v ih =>
      rw [owned_eq_branches]
      refine List.forall_mem_cons.2 ⟨h, fun w hw => ?_⟩
      obtain ⟨c, hc, hw⟩ := List.mem_flatMap.1 hw
      exact ih c hc (h.branches c hc) w hw

theorem fieldTemplate_eq (h : v.Fits) : v.fieldTemplate = v.templateValue?.toList := by
  rw [fieldTemplate]
  cases ht : v.templateValue? with
  | none => rfl
  | some t => rw [Option.filter_some_pos (h.template t ht).isMap]

end Fits

end Value

namespace Difference

variable {vs ws : List Value}

/-- Lists of mappings are compared item by item. -/
theorem unseen_list_iff (hvs : ∀ v ∈ vs, v.isMap = true) (hws : ∀ w ∈ ws, w.isMap = true) :
    Unseen (.list vs) (.list ws) ↔ List.Forall₂ Unseen vs ws := by
  have hplain : ArePlain vs ws → vs = [] ∧ ws = [] := fun plain => by
    rw [← List.append_eq_nil_iff]
    refine List.eq_nil_iff_forall_not_mem.2 fun x hx => ?_
    have hmap : x.isMap = true := (List.mem_append.1 hx).elim (hvs x) (hws x)
    obtain ⟨es, rfl⟩ := Value.exists_eq_map hmap
    cases plain _ hx
  constructor
  · intro h
    cases h with
    | data plain => cases plain
    | plainList plain =>
        obtain ⟨rfl, rfl⟩ := hplain plain
        exact .nil
    | list _ items => exact items
  · intro h
    by_cases plain : ArePlain vs ws
    · obtain ⟨rfl, rfl⟩ := hplain plain
      exact .plainList plain .nil
    · exact .list plain h

/-- A text that shows no difference stays the same. -/
theorem getOrNull_eq_of_rel {es fs : Entries} {n a : String}
    (hv : (Value.map es).getOrNull n = .text a)
    (h : Option.Rel Unseen (Entries.get? es (.text n)) (Entries.get? fs (.text n))) :
    (Value.map es).getOrNull n = (Value.map fs).getOrNull n := by
  have hget : Entries.get? es (.text n) = some (.text a) := Value.get?_of_getOrNull hv nofun
  rw [hv, Value.getOrNull, Value.get?_map]
  rw [hget] at h
  generalize Entries.get? fs (.text n) = x at h ⊢
  cases h with
  | some hvalues => rw [hvalues.eq_text, Option.getD_some]

theorem rel_iff_forall₂ {R : Value → Value → Prop} {a b : Option Value} :
    Option.Rel R a b ↔ List.Forall₂ R a.toList b.toList := by
  cases a <;> cases b <;> simp

end Difference

namespace Value.Fits

open Difference

variable {v w : Value}

theorem isSection_iff_of_type (hv : v.Fits) (hw : w.Fits)
    (htype : v.getOrNull "type" = w.getOrNull "type") :
    v.isSection = true ↔ w.isSection = true := by
  rw [isSection_iff, isSection_iff, hv.isMap, hw.isMap, htype]

/-- Fields of one type show no difference in what they own exactly if they show none between their
branches. -/
private theorem rel_owned_iff (hv : v.Fits) (hw : w.Fits) (hv' : v.IsJson) (hw' : w.IsJson)
    (htype : v.getOrNull "type" = w.getOrNull "type") :
    (Option.Rel Unseen (v.get? "children") (w.get? "children") ∧
      Option.Rel Unseen (v.get? "of") (w.get? "of")) ↔
        List.Forall₂ Unseen v.branches w.branches := by
  have hsections := hv.isSection_iff_of_type hw htype
  have htemplates : ∀ {u : Value}, u.Fits → u.IsJson → ¬ u.isSection = true →
      u.get? "children" = none ∧ u.get? "of" = u.templateValue? := by
    intro u hu hu' hsection
    cases hu.parts hu' with
    | holder isSection => exact absurd isSection hsection
    | repeater _ children template templateValue => exact ⟨children, template.trans templateValue.symm⟩
    | leaf _ children template templateValue => exact ⟨children, template.trans templateValue.symm⟩
  by_cases hsection : v.isSection = true
  · have hsection' := hsections.1 hsection
    cases hv.parts hv' with
    | holder _ children childValues template =>
        cases hw.parts hw' with
        | holder _ children' childValues' template' =>
            rw [branches_of_isSection hsection, branches_of_isSection hsection', children, children',
              template, template', childValues, childValues', Option.rel_some_some,
              unseen_list_iff (fun c hc => (hv.children c (childValues ▸ hc)).isMap)
                fun c hc => (hw.children c (childValues' ▸ hc)).isMap]
            exact and_iff_left Option.Rel.none
        | repeater not | leaf not => exact absurd hsection' not
    | repeater not | leaf not => exact absurd hsection not
  · have hsection' := mt hsections.2 hsection
    obtain ⟨hchildren, hof⟩ := htemplates hv hv' hsection
    obtain ⟨hchildren', hof'⟩ := htemplates hw hw' hsection'
    rw [branches_of_not_isSection hsection, branches_of_not_isSection hsection', hchildren,
      hchildren', hof, hof', hv.fieldTemplate_eq, hw.fieldTemplate_eq]
    exact (and_iff_right Option.Rel.none).trans rel_iff_forall₂

/-- Fields show no difference exactly if they show none in their attributes and none between their
branches. -/
theorem unseen_iff (hv : v.Fits) (hw : w.Fits) (hv' : v.IsJson) (hw' : w.IsJson) :
    Unseen v w ↔ attributes v.entriesOf w.entriesOf = [] ∧
      List.Forall₂ Unseen v.branches w.branches := by
  obtain ⟨es, rfl⟩ := exists_eq_map hv.isMap
  obtain ⟨fs, rfl⟩ := exists_eq_map hw.isMap
  obtain ⟨type, hkind⟩ := hv.exists_type
  change _ ↔ attributes es fs = [] ∧ _
  have hshown : ∀ n ∈ "type" :: owningAttributes, isPrivate (.text n) = false := by decide +kernel
  rw [hv.attributes_eq_nil_iff hw hv'.isProper hw'.isProper, Unseen.map_iff]
  constructor
  · intro h
    have htype := getOrNull_eq_of_rel hkind (h "type" (hshown _ (.head _)))
    refine ⟨fun n _ => h n, (rel_owned_iff hv hw hv' hw' htype).1 ⟨?_, ?_⟩⟩
    · exact h "children" (hshown _ (.tail _ (.head _)))
    · exact h "of" (hshown _ (.tail _ (.tail _ (.head _))))
  · rintro ⟨hall, hbranches⟩ n hn
    have htype := getOrNull_eq_of_rel hkind (hall "type" (by decide) (hshown _ (.head _)))
    obtain ⟨hchildren, hof⟩ := (rel_owned_iff hv hw hv' hw' htype).2 hbranches
    by_cases howning : n ∈ owningAttributes
    · rcases List.mem_cons.1 howning with rfl | howning
      · exact hchildren
      · obtain rfl := List.mem_singleton.1 howning
        exact hof
    · exact hall n howning hn

end Value.Fits

end FormDesigner
