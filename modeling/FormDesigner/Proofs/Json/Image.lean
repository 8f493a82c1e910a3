import FormDesigner.Proofs.Value.Domain
import FormDesigner.Value.Equality

/-!
# What JSON keeps of a value

Of a value whose mappings have text keys, JSON keeps everything but three distinctions: tuples
become lists, undefined numbers lose their labels, and mappings are put in the order of their keys
where the style asks for it. The image of a value is what it becomes. Sets, which cannot be written
at all, are taken to become lists too.
-/

namespace FormDesigner

namespace Json

open Value (IsIn Domain)

/-- Entries in the order of their keys, or as they stand. -/
def inOrder (sorted : Bool) (es : Entries) : Entries :=
  if sorted then es.mergeSort fun a b => Value.keyLe a.1 b.1 else es

mutual

/-- What a value becomes when it is written and read back. -/
def image (sorted : Bool) : Value → Value
  | .float (.nan _) => .float (.nan 0)
  | .list xs => .list (imageAll sorted xs)
  | .tuple xs => .list (imageAll sorted xs)
  | .set xs => .list (imageAll sorted xs)
  | .map es => .map (inOrder sorted (imageEntries sorted es))
  | v => v

def imageAll (sorted : Bool) : List Value → List Value
  | [] => []
  | v :: vs => image sorted v :: imageAll sorted vs

def imageEntries (sorted : Bool) : List (Value × Value) → List (Value × Value)
  | [] => []
  | (k, v) :: es => (k, image sorted v) :: imageEntries sorted es

end

variable {sorted : Bool} {D : Domain} {v : Value} {es : Entries}

theorem imageAll_eq_map (sorted : Bool) (vs : List Value) :
    imageAll sorted vs = vs.map (image sorted) := by
  induction vs with
  | nil => rfl
  | cons v vs ih => rw [imageAll, ih, List.map_cons]

theorem imageEntries_eq_map (sorted : Bool) (es : Entries) :
    imageEntries sorted es = es.map fun e => (e.1, image sorted e.2) := by
  induction es with
  | nil => rfl
  | cons e es ih => rw [imageEntries, ih, List.map_cons]

theorem inOrder_perm (sorted : Bool) (es : Entries) : (inOrder sorted es).Perm es := by
  cases sorted with
  | false => exact .refl _
  | true => exact List.mergeSort_perm _ _

/-- Putting entries in order goes by their keys alone. -/
theorem inOrder_map (f : Value × Value → Value) (es : Entries) :
    (inOrder sorted es).map (fun e => (e.1, f e)) =
      inOrder sorted (es.map fun e => (e.1, f e)) := by
  cases sorted with
  | false => rfl
  | true => exact List.map_mergeSort fun _ _ _ _ => rfl

@[simp] theorem image_text (s : String) : image sorted (.text s) = .text s := rfl

@[simp] theorem image_int (n : Int) : image sorted (.int n) = .int n := rfl

@[simp] theorem image_bool (b : Bool) : image sorted (.bool b) = .bool b := rfl

@[simp] theorem image_null : image sorted .null = .null := rfl

theorem image_list (xs : List Value) : image sorted (.list xs) = .list (xs.map (image sorted)) := by
  rw [image, imageAll_eq_map]

theorem image_tuple (xs : List Value) :
    image sorted (.tuple xs) = .list (xs.map (image sorted)) := by
  rw [image, imageAll_eq_map]

theorem image_set (xs : List Value) : image sorted (.set xs) = .list (xs.map (image sorted)) := by
  rw [image, imageAll_eq_map]

theorem image_map (es : Entries) :
    image sorted (.map es) = .map (inOrder sorted (es.map fun e => (e.1, image sorted e.2))) := by
  rw [image, imageEntries_eq_map]

theorem image_map_perm (sorted : Bool) (es : Entries) :
    (inOrder sorted (es.map fun e => (e.1, image sorted e.2))).Perm
      (es.map fun e => (e.1, image sorted e.2)) := inOrder_perm _ _

/-- What stands under a name is the image of what stood there. -/
theorem get?_image (hv : v.IsIn D) (n : String) :
    (image sorted v).get? n = (v.get? n).map (image sorted) := by
  cases v with
  | map es =>
      have hnames := hv.names_nodup
      rw [← Entries.names_map_values (fun e => image sorted e.2)] at hnames
      rw [image_map, Value.get?, Value.get?, ← Entries.get?_map_values,
        Entries.get?_perm hnames (image_map_perm sorted es).symm]
  | float x => cases x <;> rfl
  | _ => rfl

/-- The image of a value is in every domain that the value is in, if the domain does not tell
undefined numbers apart. -/
theorem image_isIn (hD : ∀ a, D.node (.float (.nan a)) → D.node (.float (.nan 0))) (hv : v.IsIn D) :
    (image sorted v).IsIn D := by
  induction hv with
  | @scalar v hv node =>
      cases v with
      | float x =>
          cases x with
          | nan a => exact .scalar rfl (hD a node)
          | _ => exact .scalar hv node
      | list | tuple | set | map => simp [Value.isScalar] at hv
      | _ => exact .scalar hv node
  | list _ ih =>
      rw [image_list]
      exact .list fun x hx => by
        obtain ⟨y, hy, rfl⟩ := List.mem_map.1 hx
        exact ih y hy
  | tuple _ _ ih =>
      rw [image_tuple]
      exact .list fun x hx => by
        obtain ⟨y, hy, rfl⟩ := List.mem_map.1 hx
        exact ih y hy
  | set _ _ ih =>
      rw [image_set]
      exact .list fun x hx => by
        obtain ⟨y, hy, rfl⟩ := List.mem_map.1 hx
        exact ih y hy
  | @map es names keys _ ih =>
      rw [image_map]
      have hmem : ∀ e ∈ inOrder sorted (es.map fun e => (e.1, image sorted e.2)),
          ∃ d ∈ es, (d.1, image sorted d.2) = e := fun e he =>
        List.mem_map.1 ((image_map_perm sorted es).mem_iff.1 he)
      refine .map ?_ (fun e he => ?_) (fun e he => ?_)
      · rwa [(Entries.names_perm (image_map_perm sorted es)).nodup_iff,
          Entries.names_map_values fun e => image sorted e.2]
      · obtain ⟨d, hd, rfl⟩ := hmem e he
        exact keys d hd
      · obtain ⟨d, hd, rfl⟩ := hmem e he
        exact ih d hd

/-- JSON keeps all of what it can stand for. -/
theorem image_eq_self (hv : v.IsIn .readable) : image false v = v := by
  induction hv with
  | @scalar v hv node =>
      cases v with
      | float x =>
          cases x with
          | nan label =>
              obtain rfl : label = 0 := node label rfl
              rfl
          | _ => rfl
      | list | tuple | set | map => simp [Value.isScalar] at hv
      | _ => rfl
  | @list xs _ ih => rw [image_list, List.map_congr_left ih, List.map_id']
  | tuple node => exact node.elim
  | set node => exact node.elim
  | @map es _ _ _ ih =>
      have hvalues : (es.map fun e => (e.1, image false e.2)) = es.map id :=
        List.map_congr_left fun e he => by rw [ih e he]; rfl
      rw [image_map, hvalues, List.map_id]
      rfl

/-! ### Values that JSON carries -/

theorem sortAll_eq_map (vs : List Value) : Value.sortAll vs = vs.map Value.sortKeys := by
  induction vs with
  | nil => rfl
  | cons v vs ih => rw [Value.sortAll, ih, List.map_cons]

theorem sortEntries_eq_map (es : Entries) :
    Value.sortEntries es = es.map fun e => (e.1, e.2.sortKeys) := by
  induction es with
  | nil => rfl
  | cons e es ih => rw [Value.sortEntries, ih, List.map_cons]

theorem areOrdered_of_text (keys : ∀ e ∈ es, ∃ s, e.1 = Value.text s) :
    Value.areOrdered (Entries.keys es) = true := by
  have : (Entries.keys es).all (fun k => k.asText?.isSome) = true := by
    rw [List.all_eq_true]
    intro k hk
    obtain ⟨e, he, rfl⟩ := List.mem_map.1 hk
    obtain ⟨s, hs⟩ := keys e he
    rw [hs]
    rfl
  simp [Value.areOrdered, this]

theorem orderEntries_eq_inOrder (keys : ∀ e ∈ es, ∃ s, e.1 = Value.text s) :
    Value.orderEntries es = inOrder true es := by
  rw [Value.orderEntries, if_pos (areOrdered_of_text keys), inOrder, if_pos rfl]

/-- All that JSON changes of a value that it carries is the order of members. -/
theorem image_eq_sortKeys (hv : v.IsJson) : image true v = v.sortKeys := by
  induction hv with
  | @scalar v hv node =>
      cases v with
      | float x =>
          cases x with
          | nan a =>
              exact absurd node (by simp [Domain.json, Value.IsJsonScalar, Binary64.isFinite])
          | _ => rfl
      | list | tuple | set | map => simp [Value.isScalar] at hv
      | _ => rfl
  | list _ ih => rw [image_list, Value.sortKeys, sortAll_eq_map, List.map_congr_left ih]
  | tuple node => exact absurd node (by simp [Domain.json, Value.IsJsonScalar])
  | set node => exact absurd node (by simp [Domain.json, Value.IsJsonScalar])
  | @map es names keys _ ih =>
      have hvalues : (es.map fun e => (e.1, image true e.2)) =
          es.map fun e => (e.1, e.2.sortKeys) :=
        List.map_congr_left fun e he => by rw [ih e he]
      rw [image_map, Value.sortKeys, sortEntries_eq_map, hvalues, orderEntries_eq_inOrder]
      intro e he
      obtain ⟨d, hd, rfl⟩ := List.mem_map.1 he
      exact keys d hd

theorem IsJson.sortKeys (hv : v.IsJson) : v.sortKeys.IsJson := by
  rw [← image_eq_sortKeys hv]
  exact image_isIn (fun _ h => absurd h (by simp [Domain.json, Value.IsJsonScalar,
    Binary64.isFinite])) hv

/-- Text keys in the order of their characters. -/
private def keyTextLe (a b : Value × Value) : Bool :=
  decide (a.1.asText?.getD "" ≤ b.1.asText?.getD "")

private theorem keyLe_eq_keyTextLe (keys : ∀ e ∈ es, ∃ s, e.1 = Value.text s) :
    ∀ a ∈ es, ∀ b ∈ es, Value.keyLe a.1 b.1 = keyTextLe a b := by
  intro a ha b hb
  obtain ⟨s, hs⟩ := keys a ha
  obtain ⟨t, ht⟩ := keys b hb
  rw [Bool.eq_iff_iff, keyTextLe, hs, ht, decide_eq_true_iff]
  change (!(decide (t < s))) = true ↔ s ≤ t
  rw [Bool.not_eq_true', decide_eq_false_iff_not, String.not_lt]

private theorem inOrder_eq_mergeSort (keys : ∀ e ∈ es, ∃ s, e.1 = Value.text s) :
    inOrder true es = es.mergeSort keyTextLe := by
  have := List.map_mergeSort (f := id) (keyLe_eq_keyTextLe keys)
  rwa [List.map_id, List.map_id] at this

private theorem pairwise_keyTextLe (keys : ∀ e ∈ es, ∃ s, e.1 = Value.text s) :
    (inOrder true es).Pairwise fun a b => keyTextLe a b = true := by
  rw [inOrder_eq_mergeSort keys]
  refine List.pairwise_mergeSort ?_ ?_ es
  · intro a b c hab hbc
    rw [keyTextLe, decide_eq_true_eq] at *
    exact String.le_trans hab hbc
  · intro a b
    rw [keyTextLe, keyTextLe, Bool.or_eq_true, decide_eq_true_eq, decide_eq_true_eq]
    exact String.le_total _ _

/-- Entries in the order of their keys have the names in order. -/
theorem pairwise_inOrder (keys : ∀ e ∈ es, ∃ s, e.1 = Value.text s) :
    (inOrder true es).Pairwise fun a b => ∀ s t, a.1 = .text s → b.1 = .text t → s ≤ t := by
  refine (pairwise_keyTextLe keys).imp fun hab s t hs ht => ?_
  rwa [keyTextLe, hs, ht, decide_eq_true_eq] at hab

/-- Entries that are in the order of their keys stay as they are. -/
theorem inOrder_inOrder (keys : ∀ e ∈ es, ∃ s, e.1 = Value.text s) :
    inOrder true (inOrder true es) = inOrder true es := by
  have hkeys : ∀ e ∈ inOrder true es, ∃ s, e.1 = Value.text s := fun e he =>
    keys e ((inOrder_perm true es).mem_iff.1 he)
  rw [inOrder_eq_mergeSort hkeys]
  exact List.mergeSort_of_pairwise (pairwise_keyTextLe keys)

theorem image_image (hv : v.IsIn .textKeyed) :
    image sorted (image sorted v) = image sorted v := by
  induction hv with
  | @scalar v hv _ =>
      cases v with
      | float x => cases x <;> rfl
      | list | tuple | set | map => simp [Value.isScalar] at hv
      | _ => rfl
  | list _ ih =>
      rw [image_list, image_list, List.map_map]
      exact congrArg Value.list (List.map_congr_left ih)
  | tuple _ _ ih =>
      rw [image_tuple, image_list, List.map_map]
      exact congrArg Value.list (List.map_congr_left ih)
  | set _ _ ih =>
      rw [image_set, image_list, List.map_map]
      exact congrArg Value.list (List.map_congr_left ih)
  | @map es _ keys _ ih =>
      have himages : ((es.map fun e => (e.1, image sorted e.2)).map fun e =>
          (e.1, image sorted e.2)) = es.map fun e => (e.1, image sorted e.2) := by
        rw [List.map_map]
        exact List.map_congr_left fun e he => by rw [Function.comp_apply, ih e he]
      rw [image_map, image_map, inOrder_map fun e => image sorted e.2, himages]
      cases sorted with
      | false => rfl
      | true =>
          rw [inOrder_inOrder]
          intro e he
          obtain ⟨d, hd, rfl⟩ := List.mem_map.1 he
          exact keys d hd

theorem sortKeys_sortKeys (hv : v.IsJson) : v.sortKeys.sortKeys = v.sortKeys := by
  rw [← image_eq_sortKeys (IsJson.sortKeys hv), ← image_eq_sortKeys hv, image_image hv.textKeyed]

/-! ### Equality -/

theorem equalItems_map {f : Value → Value} {xs : List Value}
    (h : ∀ x ∈ xs, (f x).equals x = true) : Value.equalItems (xs.map f) xs = true := by
  induction xs with
  | nil => simp [Value.equalItems]
  | cons x xs ih =>
      obtain ⟨hx, hxs⟩ := List.forall_mem_cons.1 h
      rw [List.map_cons, Value.equalItems, hx, ih hxs, Bool.or_true, Bool.and_true]

theorem equals_scalar (hv : v.isScalar = true) (node : Value.Domain.json.node v) :
    v.equals v = true := by
  cases v with
  | null => simp [Value.equals]
  | bool b => simp [Value.equals, Value.asQuantity?, Number.eq, Number.compare?]
  | int n => simp [Value.equals, Value.asQuantity?, Number.eq, Number.compare?]
  | float x =>
      cases x with
      | finite =>
          simp [Value.equals, Value.asQuantity?, Number.eq, Number.compare?, Binary64.compare?]
      | nan => cases node
      | infinite => cases node
  | text s => simp [Value.equals]
  | list | tuple | set | map => simp [Value.isScalar] at hv
  | date | moment | bytes => exact absurd node id

/-- A scalar that JSON carries becomes itself. -/
theorem image_of_scalar (hv : v.isScalar = true) (node : Value.Domain.json.node v) :
    image sorted v = v := by
  cases v with
  | float x =>
      cases x with
      | nan => cases node
      | _ => rfl
  | list | tuple | set | map => simp [Value.isScalar] at hv
  | _ => rfl

/-- A value that JSON carries is equal to what it becomes. -/
theorem equals_image (hv : v.IsJson) (sorted : Bool) : (image sorted v).equals v = true := by
  induction hv with
  | @scalar v hv node =>
      rw [image_of_scalar hv node]
      exact equals_scalar hv node
  | list _ ih =>
      rw [image_list, Value.equals]
      exact equalItems_map ih
  | tuple node => exact absurd node id
  | set node => exact absurd node id
  | @map es names keys _ ih =>
      have hperm := image_map_perm sorted es
      rw [image_map, Value.equals, hperm.length_eq, List.length_map, beq_self_eq_true,
        Bool.true_and, Value.allEntriesAmong_iff]
      intro e he
      obtain ⟨d, hd, rfl⟩ := List.mem_map.1 (hperm.mem_iff.1 he)
      obtain ⟨s, hs⟩ := keys d hd
      have hget := (Entries.get?_eq_some_iff names).2 (hs ▸ hd : (Value.text s, d.2) ∈ es)
      obtain ⟨f, hf, hfd⟩ := Option.map_eq_some_iff.1 hget
      refine ⟨f, hs ▸ hf, ?_⟩
      rw [hfd, Value.same, ih d hd, Bool.or_true]

theorem equals_self (hv : v.IsJson) : v.equals v = true := by
  have h := equals_image hv false
  rwa [image_eq_self hv.readable] at h

end Json

end FormDesigner
