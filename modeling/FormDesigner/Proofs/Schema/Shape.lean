import FormDesigner.Proofs.Field.View
import FormDesigner.Proofs.Json.Image

/-!
# Fields of the right shape

A field fits if its type is known, its own attributes are as its type declares them, and everything
that it owns fits. This is what the check of shapes accepts. Because the attributes of a mapping are
checked one by one, a field still fits after one of them has been replaced by an acceptable value,
and what JSON keeps of a field fits as well.
-/

namespace FormDesigner

namespace FieldType

theorem ofName?_eq_some_iff {s : String} {t : FieldType} : ofName? s = some t ↔ s = t.name := by
  constructor
  · intro h
    have := List.find?_some h
    simpa [eq_comm] using this
  · rintro rfl
    cases t <;> rfl

theorem name_injective {t u : FieldType} (h : t.name = u.name) : t = u := by
  have ht := ofName?_eq_some_iff.2 (rfl : t.name = t.name)
  rw [h, ofName?_eq_some_iff.2 rfl] at ht
  exact (Option.some.inj ht).symm

end FieldType

namespace Shape

open Value (IsIn IsProper)
open Json (image)

variable {v w : Value} {es : Entries} {declared : List Attribute}

theorem typeOf?_eq_some_iff {t : FieldType} : typeOf? v = some t ↔ v = .text t.name := by
  cases v with
  | text s => simp [typeOf?, Value.asText?, FieldType.ofName?_eq_some_iff]
  | _ => simp [typeOf?, Value.asText?]

/-! ### Checks -/

@[simp] theorem under_eq_nil_iff {name : String} {ps : List Problem} :
    under name ps = [] ↔ ps = [] :=
  List.map_eq_nil_iff

@[simp] theorem here_ne_nil {message : String} : here message ≠ [] := List.cons_ne_nil _ _

theorem requires_eq_nil_iff {condition : Value → Bool} {message : String} :
    requires condition message v = [] ↔ condition v = true := by
  unfold requires
  split
  · exact ⟨fun _ => ‹_›, fun _ => rfl⟩
  · exact ⟨fun h => absurd h here_ne_nil, fun h => absurd h ‹_›⟩

theorem text_eq_nil_iff : text v = [] ↔ ∃ s, v = .text s := by
  rw [text, requires_eq_nil_iff, Option.isSome_iff_exists]
  simp only [Value.asText?_eq_some_iff]

theorem filledText_eq_nil_iff : filledText v = [] ↔ ∃ s, s ≠ "" ∧ v = .text s := by
  cases v with
  | text s => simp [filledText, String.isEmpty_iff]
  | _ => simp [filledText, text_eq_nil_iff]

theorem optional_eq_nil_iff {check : Check} : optional check v = [] ↔ v = .null ∨ check v = [] := by
  cases v <;> simp [optional, Value.isNull]

theorem oneOf_eq_nil_iff {checks : List (String × Check)} (hchecks : checks ≠ []) :
    oneOf checks v = [] ↔ ∃ c ∈ checks, c.2 v = [] := by
  unfold oneOf
  split
  · rename_i h
    simpa using h
  · rename_i h
    have hall : ∀ c ∈ checks, c.2 v ≠ [] := fun c hc hnil =>
      h (List.any_eq_true.2 ⟨c, hc, List.isEmpty_iff.2 hnil⟩)
    refine ⟨fun hnil => ?_, fun ⟨c, hc, hnil⟩ => absurd hnil (hall c hc)⟩
    obtain ⟨c, hc⟩ := List.exists_mem_of_ne_nil _ hchecks
    have := List.flatMap_eq_nil_iff.1 hnil c hc
    exact absurd (under_eq_nil_iff.1 this) (hall c hc)

theorem eachItem_eq_nil_iff {check : Check} {xs : List Value} :
    eachItem check xs = [] ↔ ∀ x ∈ xs, check x = [] := by
  simp only [eachItem, List.flatMap_eq_nil_iff, under_eq_nil_iff]
  constructor
  · intro h x hx
    obtain ⟨i, hi, rfl⟩ := List.getElem_of_mem hx
    exact h (xs[i], i) (List.mk_mem_zipIdx_iff_getElem?.2 (List.getElem?_eq_getElem hi))
  · rintro h ⟨x, i⟩ hx
    exact h x (List.fst_mem_of_mem_zipIdx hx)

/-- A mapping has only declared attributes, has those that it must have, and each passes its check.
-/
theorem attributes_eq_nil_iff : attributes declared es = [] ↔
    (∀ e ∈ es, ∃ a ∈ declared, e.1 = .text a.name) ∧
      (∀ a ∈ declared, a.required = true → ∃ v, Entries.get? es (.text a.name) = some v) ∧
        ∀ a ∈ declared, ∀ v, Entries.get? es (.text a.name) = some v → a.check v = [] := by
  unfold attributes
  rw [List.append_eq_nil_iff, List.flatMap_eq_nil_iff, List.flatMap_eq_nil_iff, and_comm,
    ← forall₂_and]
  refine and_congr (forall₂_congr fun e _ => ?_) (forall₂_congr fun a _ => ?_)
  · obtain ⟨k, w⟩ := e
    cases k with
    | text s => simp [@eq_comm _ s]
    | _ => simp
  · cases Entries.get? es (.text a.name) with
    | none => cases a.required <;> simp
    | some v => simp

/-- Replacing an attribute by one that passes its check leaves nothing to complain about. -/
theorem attributes_insert (h : attributes declared es = []) {n : String}
    (hn : ∃ a ∈ declared, a.name = n) (hw : ∀ a ∈ declared, a.name = n → a.check w = []) :
    attributes declared (Entries.insert es (.text n) w) = [] := by
  obtain ⟨known, present, valid⟩ := attributes_eq_nil_iff.1 h
  refine attributes_eq_nil_iff.2 ⟨fun e he => ?_, fun a ha hrequired => ?_, fun a ha v hv => ?_⟩
  · rcases Entries.mem_insert he with he | ⟨-, hk | hk⟩
    · exact known e he
    · obtain ⟨a, ha, rfl⟩ := hn
      exact ⟨a, ha, hk⟩
    · obtain ⟨d, hd, hde⟩ := List.mem_map.1 hk
      exact hde ▸ known d hd
  · by_cases han : a.name = n
    · exact ⟨w, by rw [han]; exact Entries.get?_insert_self⟩
    · rw [Entries.get?_insert_of_ne han]
      exact present a ha hrequired
  · by_cases han : a.name = n
    · rw [han, Entries.get?_insert_self] at hv
      exact Option.some.inj hv ▸ hw a ha han
    · rw [Entries.get?_insert_of_ne han] at hv
      exact valid a ha v hv

/-! ### Checks that JSON respects -/

/-- What passes a check has text keys throughout, and so passes what JSON keeps of it. -/
structure IsPlain (check : Check) : Prop where
  undated : ∀ {v}, check v = [] → v.IsProper → v.IsIn .undated
  image : ∀ {v} (sorted : Bool), check v = [] → v.IsProper → check (Json.image sorted v) = []

theorem isPlain_of_scalar {check : Check}
    (hscalar : ∀ v, check v = [] → v.isScalar = true ∧ v.IsUndated)
    (himage : ∀ v sorted, check v = [] → check (image sorted v) = []) : IsPlain check :=
  ⟨fun h _ => .scalar (hscalar _ h).1 (hscalar _ h).2, fun sorted h _ => himage _ sorted h⟩

theorem isPlain_text : IsPlain text := by
  refine isPlain_of_scalar (fun v h => ?_) fun v sorted h => ?_
  · obtain ⟨s, rfl⟩ := text_eq_nil_iff.1 h
    exact ⟨rfl, trivial⟩
  · obtain ⟨s, rfl⟩ := text_eq_nil_iff.1 h
    exact h

theorem isPlain_filledText : IsPlain filledText := by
  refine isPlain_of_scalar (fun v h => ?_) fun v sorted h => ?_
  · obtain ⟨s, -, rfl⟩ := filledText_eq_nil_iff.1 h
    exact ⟨rfl, trivial⟩
  · obtain ⟨s, -, rfl⟩ := filledText_eq_nil_iff.1 h
    exact h

theorem isPlain_boolean : IsPlain boolean := by
  refine isPlain_of_scalar (fun v h => ?_) fun v sorted h => ?_
  · cases v <;> simp_all [boolean, requires_eq_nil_iff, Value.isBool, Value.isScalar, Value.IsUndated]
  · cases v <;> simp_all [boolean, requires_eq_nil_iff, Value.isBool]

theorem isPlain_integer : IsPlain integer := by
  refine isPlain_of_scalar (fun v h => ?_) fun v sorted h => ?_
  · cases v <;> simp_all [integer, requires_eq_nil_iff, isInteger, Value.isScalar, Value.IsUndated]
  · cases v <;> simp_all [integer, requires_eq_nil_iff, isInteger]

theorem isPlain_measure : IsPlain measure := by
  refine isPlain_of_scalar (fun v h => ?_) fun v sorted h => ?_
  · cases v <;> simp_all [measure, requires_eq_nil_iff, isMeasure, Value.isScalar, Value.IsUndated]
  · cases v with
    | float x => cases x <;> simp_all [measure, requires_eq_nil_iff, isMeasure, image]
    | _ => simp_all [measure, requires_eq_nil_iff, isMeasure]

theorem IsPlain.optional {check : Check} (h : IsPlain check) : IsPlain (optional check) := by
  refine ⟨fun hv hproper => ?_, fun sorted hv hproper => ?_⟩
  · rcases optional_eq_nil_iff.1 hv with rfl | hv
    · exact .scalar rfl trivial
    · exact h.undated hv hproper
  · rcases optional_eq_nil_iff.1 hv with rfl | hv
    · rfl
    · exact optional_eq_nil_iff.2 (.inr (h.image sorted hv hproper))

theorem isPlain_oneOf {checks : List (String × Check)} (hchecks : checks ≠ [])
    (h : ∀ c ∈ checks, IsPlain c.2) : IsPlain (oneOf checks) := by
  refine ⟨fun hv hproper => ?_, fun sorted hv hproper => ?_⟩
  · obtain ⟨c, hc, hv⟩ := (oneOf_eq_nil_iff hchecks).1 hv
    exact (h c hc).undated hv hproper
  · obtain ⟨c, hc, hv⟩ := (oneOf_eq_nil_iff hchecks).1 hv
    exact (oneOf_eq_nil_iff hchecks).2 ⟨c, hc, (h c hc).image sorted hv hproper⟩

private theorem isPlain_scalarChecks : ∀ c ∈ scalarChecks, IsPlain c.2 := by
  simp only [scalarChecks, List.forall_mem_cons]
  exact ⟨isPlain_boolean, isPlain_integer, isPlain_measure, isPlain_text, List.forall_mem_nil _⟩

theorem isPlain_scalar : IsPlain scalar :=
  isPlain_oneOf (by simp [scalarChecks]) isPlain_scalarChecks

theorem isPlain_scalarList : IsPlain scalarList := by
  have hlist : ∀ {v}, scalarList v = [] → ∃ xs, v = .list xs ∧ ∀ x ∈ xs, scalar x = [] := by
    intro v h
    cases v with
    | list xs => exact ⟨xs, rfl, eachItem_eq_nil_iff.1 h⟩
    | _ => exact absurd h here_ne_nil
  refine ⟨fun hv hproper => ?_, fun sorted hv hproper => ?_⟩
  · obtain ⟨xs, rfl, hxs⟩ := hlist hv
    exact .list fun x hx => isPlain_scalar.undated (hxs x hx) (IsIn.list_iff.1 hproper x hx)
  · obtain ⟨xs, rfl, hxs⟩ := hlist hv
    rw [Json.image_list]
    refine eachItem_eq_nil_iff.2 fun x hx => ?_
    obtain ⟨y, hy, rfl⟩ := List.mem_map.1 hx
    exact isPlain_scalar.image sorted (hxs y hy) (IsIn.list_iff.1 hproper y hy)

theorem isPlain_defaultValue : IsPlain defaultValue := by
  refine isPlain_oneOf (by simp) fun c hc => ?_
  rcases List.mem_append.1 hc with hc | hc
  · exact isPlain_scalarChecks c hc
  · obtain rfl := List.mem_singleton.1 hc
    exact isPlain_scalarList

/-- A mapping with nothing but declared attributes is in every domain that these are in. -/
theorem attributes_isIn {D : Value.Domain} (h : attributes declared es = [])
    (hes : (Value.map es).IsProper)
    (hvalues : ∀ a ∈ declared, ∀ v, Entries.get? es (.text a.name) = some v → v.IsIn D) :
    (Value.map es).IsIn D := by
  obtain ⟨known, -, -⟩ := attributes_eq_nil_iff.1 h
  refine .map hes.names_nodup (fun e he => ?_) (fun e he => ?_)
  · obtain ⟨a, -, ha⟩ := known e he
    exact ha ▸ D.key_text a.name
  · obtain ⟨a, hmem, ha⟩ := known e he
    refine hvalues a hmem e.2 ((Entries.get?_eq_some_iff hes.names_nodup).2 ?_)
    rw [← ha]
    exact he

theorem attributes_image (sorted : Bool) (h : attributes declared es = [])
    (hes : (Value.map es).IsProper)
    (himage : ∀ a ∈ declared, ∀ v, Entries.get? es (.text a.name) = some v →
      a.check (image sorted v) = []) :
    attributes declared (Json.inOrder sorted (es.map fun e => (e.1, image sorted e.2))) = [] := by
  obtain ⟨known, present, valid⟩ := attributes_eq_nil_iff.1 h
  have hget : ∀ n, Entries.get? (Json.inOrder sorted (es.map fun e => (e.1, image sorted e.2)))
      (.text n) = (Entries.get? es (.text n)).map (image sorted) := by
    intro n
    have himages : (image sorted (.map es)).get? n = _ := Json.get?_image hes n
    rwa [Json.image_map] at himages
  refine attributes_eq_nil_iff.2 ⟨fun e he => ?_, fun a ha hrequired => ?_, fun a ha v hv => ?_⟩
  · obtain ⟨d, hd, rfl⟩ := List.mem_map.1 ((Json.image_map_perm sorted es).mem_iff.1 he)
    exact known d hd
  · obtain ⟨v, hv⟩ := present a ha hrequired
    exact ⟨image sorted v, by rw [hget, hv, Option.map_some]⟩
  · rw [hget] at hv
    obtain ⟨w, hw, rfl⟩ := Option.map_eq_some_iff.1 hv
    exact himage a ha w hw

theorem isPlain_record {name : String} (h : ∀ a ∈ declared, IsPlain a.check) :
    IsPlain (record name declared) := by
  have hmap : ∀ {v}, record name declared v = [] →
      ∃ es, v = .map es ∧ attributes declared es = [] := by
    intro v h
    cases v with
    | map es => exact ⟨es, rfl, h⟩
    | _ => exact absurd h here_ne_nil
  refine ⟨fun hv hproper => ?_, fun sorted hv hproper => ?_⟩
  · obtain ⟨es, rfl, hes⟩ := hmap hv
    refine attributes_isIn hes hproper fun a ha v hv => ?_
    exact (h a ha).undated ((attributes_eq_nil_iff.1 hes).2.2 a ha v hv)
      (hproper.get? (n := a.name) hv)
  · obtain ⟨es, rfl, hes⟩ := hmap hv
    rw [Json.image_map]
    refine attributes_image sorted hes hproper fun a ha v hv => ?_
    exact (h a ha).image sorted ((attributes_eq_nil_iff.1 hes).2.2 a ha v hv)
      (hproper.get? (n := a.name) hv)

theorem isPlain_rules : IsPlain rules := by
  refine isPlain_record ?_
  simp only [List.forall_mem_cons]
  exact ⟨isPlain_measure.optional, isPlain_measure.optional, isPlain_text.optional,
    List.forall_mem_nil _⟩

theorem isPlain_option : IsPlain option := by
  refine isPlain_record ?_
  simp only [List.forall_mem_cons]
  exact ⟨isPlain_text, isPlain_text, List.forall_mem_nil _⟩

/-- What counts as a list still does, with the images of its items. -/
theorem itemsOf?_image (sorted : Bool) (v : Value) :
    itemsOf? (image sorted v) = (itemsOf? v).map (List.map (image sorted)) := by
  cases v with
  | list xs => rw [Json.image_list]; rfl
  | tuple xs => rw [Json.image_tuple]; rfl
  | set xs => rw [Json.image_set]; rfl
  | map es => rw [Json.image_map]; rfl
  | float x => cases x <;> rfl
  | _ => rfl

theorem isPlain_options : IsPlain options := by
  have hitems : ∀ {v}, options v = [] → ∃ xs, itemsOf? v = some xs ∧ ∀ x ∈ xs, option x = [] := by
    intro v h
    unfold options at h
    split at h
    · exact ⟨_, ‹_›, eachItem_eq_nil_iff.1 h⟩
    · exact absurd h here_ne_nil
  refine ⟨fun hv hproper => ?_, fun sorted hv hproper => ?_⟩
  · obtain ⟨xs, hxs, hall⟩ := hitems hv
    have hproperItems := hproper.elements (Value.itemsOf?_eq_some hxs)
    have hkeyed : ∀ x ∈ xs, x.IsIn .undated := fun x hx =>
      isPlain_option.undated (hall x hx) (hproperItems x hx)
    rcases Value.itemsOf?_eq_some hxs with rfl | rfl | rfl
    · exact .list hkeyed
    · exact .tuple trivial hkeyed
    · exact .set trivial hkeyed
  · obtain ⟨xs, hxs, hall⟩ := hitems hv
    have hproperItems := hproper.elements (Value.itemsOf?_eq_some hxs)
    rw [options, itemsOf?_image, hxs, Option.map_some]
    refine eachItem_eq_nil_iff.2 fun x hx => ?_
    obtain ⟨y, hy, rfl⟩ := List.mem_map.1 hx
    exact isPlain_option.image sorted (hall y hy) (hproperItems y hy)

end Shape

end FormDesigner
