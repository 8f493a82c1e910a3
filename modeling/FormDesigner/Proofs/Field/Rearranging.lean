import FormDesigner.Proofs.Field.Changing
import FormDesigner.Proofs.Field.Splicing
import Mathlib.Data.List.InsertIdx

/-!
# Siblings in another order

What is moved is taken out of a list first, and the position where it goes is counted in what is left.
So it stands at that position afterwards, the others keep their order, and moving it back undoes the
move. The children of a section are put back into the tree in their new order by the id of the
section: this changes the section alone, and only what was put there last counts.
-/

namespace FormDesigner

/-- Where an item stood before a move that puts the item at `i` to `j`, if it stands at `k` now. -/
def formerPosition (i j k : Nat) : Nat :=
  if k = j then i else if i ≤ k ∧ k < j then k + 1 else if j < k ∧ k ≤ i then k - 1 else k

/-- Exactly the items between the two positions have another position than before. -/
theorem formerPosition_eq_iff {i j k : Nat} (hij : i ≠ j) :
    formerPosition i j k = k ↔ ¬ (min i j ≤ k ∧ k ≤ max i j) := by
  unfold formerPosition
  split_ifs <;> omega

section Moved

variable {α : Type} {xs : List α} {i j : Nat}

theorem moved_eq (hi : i < xs.length) : moved xs i j = (xs.eraseIdx i).insertIdx j xs[i] := by
  rw [moved, List.getElem?_eq_getElem hi]

/-- What was moved stands where it was to go. -/
theorem getElem?_moved (hi : i < xs.length) (hj : j < xs.length) : (moved xs i j)[j]? = xs[i]? := by
  have hle : j ≤ (xs.eraseIdx i).length := by
    rw [List.length_eraseIdx_of_lt hi]
    omega
  rw [moved_eq hi, List.getElem?_insertIdx_self, if_pos hle, List.getElem?_eq_getElem hi]

theorem getElem?_moved_eq (hi : i < xs.length) (hj : j < xs.length) (k : Nat) :
    (moved xs i j)[k]? = xs[formerPosition i j k]? := by
  have hlength := List.length_eraseIdx_of_lt hi
  rw [moved_eq hi, List.getElem?_insertIdx, List.getElem?_eraseIdx, List.getElem?_eraseIdx]
  unfold formerPosition
  rcases Nat.lt_trichotomy k j with hlt | rfl | hgt
  · have hne : k ≠ j := by omega
    have hnot : ¬ (j < k ∧ k ≤ i) := by omega
    rw [if_pos hlt, if_neg hne, if_neg hnot]
    by_cases hle : i ≤ k
    · rw [if_neg (Nat.not_lt.2 hle), if_pos ⟨hle, hlt⟩]
    · rw [if_pos (Nat.not_le.1 hle), if_neg fun h => hle h.1]
  · have hle : k ≤ (xs.eraseIdx i).length := by omega
    rw [if_neg (Nat.lt_irrefl k), if_pos rfl, if_pos rfl, if_pos hle, List.getElem?_eq_getElem hi]
  · have hnot : ¬ k < j := by omega
    have hne : k ≠ j := by omega
    have hnot' : ¬ (i ≤ k ∧ k < j) := by omega
    rw [if_neg hnot, if_neg hne, if_neg hne, if_neg hnot']
    by_cases hle : k ≤ i
    · have hlt : k - 1 < i := by omega
      rw [if_pos hlt, if_pos ⟨hgt, hle⟩]
    · have hlt : ¬ k - 1 < i := by omega
      rw [if_neg hlt, if_neg fun h => hle h.2]
      congr 1
      omega

/-- The others are the same as before, in the same order. -/
theorem eraseIdx_moved (hi : i < xs.length) : (moved xs i j).eraseIdx j = xs.eraseIdx i := by
  rw [moved_eq hi, List.eraseIdx_insertIdx_self]

theorem length_moved (hi : i < xs.length) (hj : j < xs.length) :
    (moved xs i j).length = xs.length :=
  (Forest.moved_perm xs hi hj).length_eq

/-- Moving back undoes a move. -/
theorem moved_moved (hi : i < xs.length) (hj : j < xs.length) : moved (moved xs i j) j i = xs := by
  rw [moved, getElem?_moved hi hj, List.getElem?_eq_getElem hi]
  dsimp only
  rw [eraseIdx_moved hi, List.insertIdx_eraseIdx_getElem hi]

end Moved

namespace Forest

open Value (gathered nodes owned_induction)
open FormDesigner.Field (ofValue)

variable {id v w : Value} {cs ds vs : List Value}

/-- A field with other children in each section below it that has an id. -/
def rearrangeIn (id : Value) (cs : List Value) : Value → Value :=
  rebuilt fun v =>
    if (v.getOrNull "id").equals id && v.isSection then v.put "children" (.list cs) else v

theorem replaceChildren_map (id : Value) (cs vs : List Value) :
    replaceChildren id cs (vs.map ofValue) = vs.map (rearrangeIn id cs) := by
  rw [replaceChildren, mapAll_eq_map]
  rfl

theorem rearrangeIn_of_isSection (hv : v.isSection = true) : rearrangeIn id cs v =
    v.put "children" (.list (if hasId id v then cs else v.childValues.map (rearrangeIn id cs))) := by
  have hput : ∀ ds, (v.put "children" (.list ds)).isSection = true := fun ds => by
    rwa [Value.isSection_put (by decide)]
  rw [rearrangeIn, rebuilt_of_isSection hv, Value.getOrNull_put_of_ne (by decide), hput,
    Bool.and_true, hasId, Value.put_put]
  split
  · rfl
  · rfl

theorem rearrangeIn_of_not_isSection (hv : ¬ v.isSection = true) : rearrangeIn id cs v = v := by
  rw [rearrangeIn, rebuilt_of_not_isSection hv, Bool.eq_false_iff.2 hv, Bool.and_false]
  rfl

private theorem rearrangeIn_rearrangeIn (v : Value) :
    rearrangeIn id cs (rearrangeIn id ds v) = rearrangeIn id cs v := by
  induction v using owned_induction with
  | node v ih _ =>
      by_cases hv : v.isSection = true
      · have hput : ∀ ds, (v.put "children" (.list ds)).isSection = true := fun ds => by
          rwa [Value.isSection_put (by decide)]
        have hid : ∀ ds, hasId id (v.put "children" (.list ds)) = hasId id v := fun ds => by
          rw [hasId, Value.getOrNull_put_of_ne (by decide), hasId]
        rw [rearrangeIn_of_isSection hv, rearrangeIn_of_isSection (hput _), hid, Value.put_put,
          rearrangeIn_of_isSection hv, Value.childValues_put_children hv]
        cases hasId id v with
        | true => rfl
        | false =>
            have hbelow : v.childValues.map (rearrangeIn id cs ∘ rearrangeIn id ds) =
                v.childValues.map (rearrangeIn id cs) := List.map_congr_left ih
            rw [if_neg Bool.false_ne_true, if_neg Bool.false_ne_true, if_neg Bool.false_ne_true,
              List.map_map, hbelow]
      · rw [rearrangeIn_of_not_isSection hv]

/-- Only the children that a section got last count. -/
theorem replaceChildren_replaceChildren (id : Value) (cs ds vs : List Value) :
    replaceChildren id cs ((replaceChildren id ds (vs.map ofValue)).map ofValue) =
      replaceChildren id cs (vs.map ofValue) := by
  rw [replaceChildren_map, replaceChildren_map, replaceChildren_map, List.map_map]
  exact List.map_congr_left fun v _ => rearrangeIn_rearrangeIn v

private theorem rearrangeIn_eq_self (hv : v.IsJson ∧ v.Fits)
    (h : ∀ u ∈ v.nodes, hasId id u = true → u.isSection = true → u.childValues = cs) :
    rearrangeIn id cs v = v := by
  have hnodes := ((Value.isInherited_isIn .json).and Value.isInherited_fits).nodes hv
  have hlists : ∀ u ∈ v.nodes, u.ListsChildren := fun u hu hsection =>
    Value.put_childValues (hnodes u hu).1 (hnodes u hu).2 hsection
  refine rebuilt_eq_self hlists fun u hu => ?_
  split
  · next hfound =>
      obtain ⟨hid, hsection⟩ := Bool.and_eq_true_iff.1 hfound
      rw [← h u hu hid hsection, hlists u hu hsection]
  · rfl

section Changes

variable (hvs : ∀ v ∈ vs, v.IsJson ∧ v.Fits) (hids : (vs.flatMap (gathered "id")).Nodup)
  (hw : w ∈ vs.flatMap nodes) (hwid : hasId id w = true)
include hvs hids hw hwid

/-- A section that gets the children that it has stays as it is. -/
theorem replaceChildren_childValues : replaceChildren id w.childValues (vs.map ofValue) = vs := by
  rw [replaceChildren_map]
  refine (List.map_congr_left fun v hv => ?_).trans (List.map_id vs)
  refine rearrangeIn_eq_self (hvs v hv) fun u hu huid _ => ?_
  -- No other node has the id.
  rw [eq_of_hasId (fun v hv => (hvs v hv).2) hids (List.mem_flatMap.2 ⟨v, hv, hu⟩) hw huid hwid]

/-- Giving other children to a section changes nothing around it. -/
theorem replaceChildren_spliced (hsection : w.isSection = true) (cs : List Value) :
    Spliced w [w.put "children" (.list cs)] vs (replaceChildren id cs (vs.map ofValue)) := by
  have h : Rebuilds id fun v => [rearrangeIn id cs v] := by
    refine ⟨fun v hv hsection => ?_, fun v hv hsection => ?_⟩
    · rw [rearrangeIn_of_isSection hsection, hv, if_neg Bool.false_ne_true, ← List.map_eq_flatMap]
    · rw [rearrangeIn_of_not_isSection hsection]
  rw [replaceChildren_map, List.map_eq_flatMap]
  refine h.spliced hvs hids hw hwid ?_
  rw [rearrangeIn_of_isSection hsection, if_pos hwid]

end Changes

end Forest

end FormDesigner
