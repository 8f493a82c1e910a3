import FormDesigner.Value.Difference
import Mathlib.Data.List.Forall2

/-!
# Aligned lists

Lists of plain data are cut into runs that they share and stretches between those. The runs and the
stretches cover both lists in order, so no change is found exactly if the lists are equally long and
hold the same data in the same places.
-/

namespace FormDesigner

namespace Difference

variable {vs ws : List Value} {r : Run}

/-- Two lists hold the same data in the same places. -/
abbrev SameItems (vs ws : List Value) : Prop := List.Forall₂ (fun v w => v.same w = true) vs ws

/-! ### Shared runs -/

theorem commonLength_le (vs ws : List Value) :
    commonLength vs ws ≤ vs.length ∧ commonLength vs ws ≤ ws.length := by
  fun_induction commonLength vs ws with
  | case1 v vs w ws _ ih => simp only [List.length_cons]; omega
  | case2 => omega
  | case3 => omega

theorem sameItems_take_commonLength {n : Nat} (h : n ≤ commonLength vs ws) :
    SameItems (vs.take n) (ws.take n) := by
  fun_induction commonLength vs ws generalizing n with
  | case1 v vs w ws hsame ih =>
      cases n with
      | zero => exact .nil
      | succ n => exact .cons hsame (ih (by omega))
  | case2 | case3 =>
      rw [Nat.le_zero.1 h]
      exact .nil

theorem commonLength_of_sameItems (h : SameItems vs ws) : commonLength vs ws = vs.length := by
  induction h with
  | nil => rfl
  | cons hsame _ ih => rw [commonLength, if_pos hsame, ih, List.length_cons, Nat.add_comm]

/-- A run lies within both lists, and what it covers is the same. -/
structure Run.IsShared (r : Run) (vs ws : List Value) : Prop where
  size_le : r.size ≤ commonLength (vs.drop r.left) (ws.drop r.right)

namespace Run.IsShared

theorem left_le (h : r.IsShared vs ws) (hsize : r.size ≠ 0) : r.left + r.size ≤ vs.length := by
  have hle := Nat.le_trans h.size_le (commonLength_le _ _).1
  rw [List.length_drop] at hle
  omega

theorem right_le (h : r.IsShared vs ws) (hsize : r.size ≠ 0) : r.right + r.size ≤ ws.length := by
  have hle := Nat.le_trans h.size_le (commonLength_le _ _).2
  rw [List.length_drop] at hle
  omega

theorem sameItems (h : r.IsShared vs ws) :
    SameItems ((vs.drop r.left).take r.size) ((ws.drop r.right).take r.size) :=
  sameItems_take_commonLength h.size_le

end Run.IsShared

/-- The longer of a run and the one that begins at two positions. -/
def longer (vs ws : List Value) (best : Run) (i j : Nat) : Run :=
  let size := commonLength (vs.drop i) (ws.drop j)
  if best.size < size then ⟨i, j, size⟩ else best

theorem longestRun_eq (vs ws : List Value) :
    longestRun vs ws = (List.range vs.length).foldl
      (fun best i => (List.range ws.length).foldl (longer vs ws · i ·) best) ⟨0, 0, 0⟩ := rfl

theorem longer_isShared (h : r.IsShared vs ws) (i j : Nat) : (longer vs ws r i j).IsShared vs ws := by
  unfold longer
  dsimp only
  split
  · exact ⟨Nat.le_refl _⟩
  · exact h

theorem longestRun_isShared (vs ws : List Value) : (longestRun vs ws).IsShared vs ws := by
  have hnone : Run.IsShared ⟨0, 0, 0⟩ vs ws := ⟨Nat.zero_le _⟩
  rw [longestRun_eq]
  exact List.foldlRecOn (motive := fun r : Run => r.IsShared vs ws) _ _ hnone fun _ hbest i _ =>
    List.foldlRecOn (motive := fun r : Run => r.IsShared vs ws) _ _ hbest fun _ hbest j _ =>
      longer_isShared hbest i j

/-- No run is longer than one that covers the whole list. -/
theorem longer_whole (vs ws : List Value) (i j : Nat) :
    longer vs ws ⟨0, 0, vs.length⟩ i j = ⟨0, 0, vs.length⟩ := by
  have hle := (commonLength_le (vs.drop i) (ws.drop j)).1
  rw [List.length_drop] at hle
  exact if_neg (by dsimp only; omega)

theorem longestRun_of_sameItems (h : SameItems vs ws) (hvs : vs ≠ []) :
    longestRun vs ws = ⟨0, 0, vs.length⟩ := by
  have hpos : 0 < vs.length := List.length_pos_iff.2 hvs
  have hfirst : longer vs ws ⟨0, 0, 0⟩ 0 0 = ⟨0, 0, vs.length⟩ := by
    unfold longer
    rw [List.drop_zero, List.drop_zero, commonLength_of_sameItems h]
    exact if_pos hpos
  have hrow : ∀ i (js : List Nat), js.foldl (longer vs ws · i ·) ⟨0, 0, vs.length⟩ =
      ⟨0, 0, vs.length⟩ :=
    fun i => List.foldl_fixed' (longer_whole vs ws i)
  have hrange : ∀ {n}, 0 < n → ∃ js, List.range n = 0 :: js := by
    intro n hn
    obtain ⟨m, rfl⟩ := Nat.exists_eq_succ_of_ne_zero (Nat.pos_iff_ne_zero.1 hn)
    exact ⟨_, List.range_succ_eq_map⟩
  obtain ⟨is, his⟩ := hrange hpos
  obtain ⟨js, hjs⟩ := hrange (h.length_eq ▸ hpos)
  rw [longestRun_eq, his, hjs, List.foldl_cons, List.foldl_cons, hfirst, hrow]
  exact List.foldl_fixed' (fun i => hrow i _) is

/-! ### Runs and the stretches between them -/

theorem gaps_append (left right leftEnd rightEnd : Nat) (rs : List Run) (r : Run) (rs' : List Run) :
    gaps left right leftEnd rightEnd (rs ++ r :: rs') =
      gaps left right r.left r.right rs ++
        gaps (r.left + r.size) (r.right + r.size) leftEnd rightEnd rs' := by
  induction rs generalizing left right with
  | nil => rfl
  | cons q rs ih =>
      rw [List.cons_append, gaps, gaps, ih, List.cons_append]

/-- The part of a list from one position up to another. -/
def stretch (start stop : Nat) (vs : List Value) : List Value := (vs.drop start).take (stop - start)

theorem take_stretch {start stop n : Nat} (h : start + n ≤ stop) (vs : List Value) :
    (stretch start stop vs).take n = stretch start (start + n) vs := by
  unfold stretch
  rw [List.take_take]
  congr 1
  omega

theorem drop_stretch (start stop n : Nat) (vs : List Value) :
    (stretch start stop vs).drop n = stretch (start + n) stop vs := by
  unfold stretch
  rw [List.drop_take, List.drop_drop, Nat.sub_sub]

theorem length_stretch_le (start stop : Nat) (vs : List Value) :
    (stretch start stop vs).length ≤ stop - start := by
  unfold stretch
  rw [List.length_take]
  exact Nat.min_le_left _ _

/-- The changes in one stretch between shared runs. -/
def inGap (vs ws : List Value) (g : Gap) : List Change :=
  ofPairedData g.left g.right (stretch g.left g.leftEnd vs) (stretch g.right g.rightEnd ws)

theorem ofAlignedData_eq (vs ws : List Value) :
    ofAlignedData vs ws = (gaps 0 0 vs.length ws.length (runs 0 0 vs ws (vs.length + 1))).flatMap
      (inGap vs ws) := rfl

/-- The changes in a stretch are none only where the data are the same. -/
theorem sameItems_of_ofPairedData (hdata : ∀ v ∈ vs, ∀ w, ofData v w = [] → v.same w = true)
    {i j : Nat} (h : ofPairedData i j vs ws = []) : SameItems vs ws := by
  induction vs generalizing ws i j with
  | nil =>
      cases ws with
      | nil => exact .nil
      | cons w ws => simp [ofPairedData] at h
  | cons v vs ih =>
      cases ws with
      | nil => simp [ofPairedData] at h
      | cons w ws =>
          obtain ⟨hv, hvs⟩ := List.forall_mem_cons.1 hdata
          rw [ofPairedData, List.append_eq_nil_iff, List.map_eq_nil_iff] at h
          exact .cons (hv w h.1) (ih hvs h.2)

private theorem sameItems_of_inGap {left leftEnd right rightEnd : Nat}
    (hdata : ∀ v ∈ vs, ∀ w, ofData v w = [] → v.same w = true)
    (h : inGap vs ws ⟨left, leftEnd, right, rightEnd⟩ = []) :
    SameItems (stretch left leftEnd vs) (stretch right rightEnd ws) := by
  refine sameItems_of_ofPairedData (fun v hv => hdata v ?_) h
  exact List.mem_of_mem_drop (List.mem_of_mem_take hv)

/-- Lists that are the same in three parts are the same. -/
private theorem sameItems_of_parts {i j size : Nat}
    (hstart : SameItems (vs.take i) (ws.take j))
    (hmiddle : SameItems ((vs.drop i).take size) ((ws.drop j).take size))
    (hend : SameItems (vs.drop (i + size)) (ws.drop (j + size))) : SameItems vs ws := by
  have hparts : ∀ (k : Nat) (us : List Value),
      us.take k ++ ((us.drop k).take size ++ us.drop (k + size)) = us := fun k us => by
    rw [← List.drop_drop, List.take_append_drop, List.take_append_drop]
  rw [← hparts i vs, ← hparts j ws]
  exact List.rel_append hstart (List.rel_append hmiddle hend)

/-- Stretches of two lists are the same if what lies between their shared runs is. -/
private theorem sameItems_of_gaps (hdata : ∀ v ∈ vs, ∀ w, ofData v w = [] → v.same w = true)
    (fuel left right leftEnd rightEnd : Nat)
    (h : ∀ g ∈ gaps left right leftEnd rightEnd
      (runs left right (stretch left leftEnd vs) (stretch right rightEnd ws) fuel),
        inGap vs ws g = []) :
    SameItems (stretch left leftEnd vs) (stretch right rightEnd ws) := by
  induction fuel generalizing left right leftEnd rightEnd with
  | zero => exact sameItems_of_inGap hdata (h _ (List.mem_singleton.2 rfl))
  | succ fuel ih =>
      have hshared := longestRun_isShared (stretch left leftEnd vs) (stretch right rightEnd ws)
      rw [runs] at h
      generalize longestRun _ _ = r at h hshared
      by_cases hsize : r.size = 0
      · rw [if_pos (by simpa using hsize)] at h
        exact sameItems_of_inGap hdata (h _ (List.mem_singleton.2 rfl))
      · rw [if_neg (by simpa using hsize), gaps_append, List.forall_mem_append] at h
        have hl := Nat.le_trans (hshared.left_le hsize) (length_stretch_le left leftEnd vs)
        have hr := Nat.le_trans (hshared.right_le hsize) (length_stretch_le right rightEnd ws)
        rw [take_stretch (by omega), take_stretch (by omega), drop_stretch, drop_stretch] at h
        refine sameItems_of_parts ?_ hshared.sameItems ?_
        · rw [take_stretch (by omega), take_stretch (by omega)]
          exact ih _ _ _ _ h.1
        · rw [drop_stretch, drop_stretch]
          exact ih _ _ _ _ (by simpa only [Nat.add_assoc] using h.2)

theorem sameItems_of_ofAlignedData (hdata : ∀ v ∈ vs, ∀ w, ofData v w = [] → v.same w = true)
    (h : ofAlignedData vs ws = []) : SameItems vs ws := by
  have hwhole : ∀ us : List Value, stretch 0 us.length us = us := fun us => by
    rw [stretch, List.drop_zero, Nat.sub_zero, List.take_length]
  rw [ofAlignedData_eq, List.flatMap_eq_nil_iff] at h
  have hsame : _ → SameItems (stretch 0 vs.length vs) (stretch 0 ws.length ws) :=
    sameItems_of_gaps hdata (vs.length + 1) 0 0 vs.length ws.length
  rw [hwhole, hwhole] at hsame
  exact hsame h

theorem runs_nil (left right : Nat) (ws : List Value) (fuel : Nat) :
    runs left right [] ws fuel = [] := by
  cases fuel with
  | zero => rfl
  | succ fuel => rw [runs]; rfl

theorem ofAlignedData_of_sameItems (h : SameItems vs ws) : ofAlignedData vs ws = [] := by
  by_cases hvs : vs = []
  · subst hvs
    cases h
    rw [ofAlignedData_eq, runs_nil]
    simp [gaps, inGap, stretch, ofPairedData]
  · have hlength : ws.length = vs.length := h.length_eq.symm
    rw [ofAlignedData_eq, runs, longestRun_of_sameItems h hvs, if_neg (by simpa using hvs)]
    simp [runs_nil, gaps, inGap, stretch, ofPairedData, hlength]

/-- Lists of plain data show no change exactly if they hold the same data in the same places. -/
theorem ofPlainLists_eq_nil_iff (hdata : ∀ v ∈ vs, ∀ w, ofData v w = [] → v.same w = true) :
    ofPlainLists vs ws = [] ↔ SameItems vs ws := by
  unfold ofPlainLists
  dsimp only
  constructor
  · intro h
    split at h
    · exact sameItems_of_ofAlignedData hdata h
    · split at h
      · exact sameItems_of_ofPairedData hdata h
      · exact sameItems_of_ofAlignedData hdata h
  · intro h
    rw [ofAlignedData_of_sameItems h]
    rfl

end Difference

end FormDesigner
