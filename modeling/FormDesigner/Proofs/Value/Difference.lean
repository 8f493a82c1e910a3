import FormDesigner.Proofs.Field.View
import FormDesigner.Value.Difference

/-!
# Values without differences

Where no changes are found between two values, texts and integers are the same, lists of mappings
agree item by item, and mappings have the same names, private ones aside, with values between which
there are no changes either.
-/

namespace FormDesigner

namespace Difference

open Value (text)

variable {v w : Value} {es fs : Entries} {n : String}

theorem here_ne_nil {kind : ChangeKind} : here kind ≠ [] := List.cons_ne_nil _ _

theorem ofData_eq_nil_iff : ofData v w = [] ↔ v.kindName = w.kindName ∧ sameDatum v w = true := by
  unfold ofData
  split
  · next hkind => exact iff_of_false here_ne_nil fun h => hkind h.1
  · next hkind =>
      rw [ne_eq, not_not] at hkind
      split
      · next hsame => exact iff_of_true rfl ⟨hkind, hsame⟩
      · next hsame => exact iff_of_false here_ne_nil fun h => hsame h.2

theorem eq_of_between_text {s : String} (h : between (.text s) w = []) : w = .text s := by
  simp only [between] at h
  exact Value.same_text_iff.1 (ofData_eq_nil_iff.1 h).2

theorem eq_of_between_int {k : Int} (h : between (.int k) w = []) : w = .int k := by
  simp only [between] at h
  obtain ⟨hkind, hsame⟩ := ofData_eq_nil_iff.1 h
  cases w with
  | int m =>
      have heq : k = m := by
        simpa [sameDatum, Value.same, Value.sameNan, Value.equals, Value.asQuantity?, Number.eq,
          Number.compare?] using hsame
      rw [heq]
  | _ => simp [Value.kindName] at hkind

/-! ### Mappings -/

private theorem of_betweenEntries (h : betweenEntries fs es = []) (he : (text n, v) ∈ es)
    (hn : isPrivate (text n) = false) (hw : Entries.get? fs (text n) = some w) :
    between v w = [] := by
  induction es with
  | nil => cases he
  | cons e es ih =>
      obtain ⟨k, u⟩ := e
      rw [betweenEntries, List.append_eq_nil_iff] at h
      rcases List.mem_cons.1 he with heq | he
      · obtain ⟨rfl, rfl⟩ := Prod.mk.inj heq
        simpa [hn, hw] using h.1
      · exact ih h.2 he

theorem between_map (h : between (.map es) (.map fs) = []) :
    (∀ k ∈ keysOf fs, Entries.contains es k = true) ∧
      (∀ k ∈ keysOf es, Entries.contains fs k = true) ∧ betweenEntries fs es = [] := by
  simp only [between] at h
  split at h
  · exact absurd h here_ne_nil
  · simpa [List.append_eq_nil_iff, and_assoc] using h

theorem mem_keysOf (hn : isPrivate (text n) = false)
    (hv : Entries.get? es (text n) = some v) : text n ∈ keysOf es := by
  refine List.mem_filter.2 ⟨?_, by rw [hn]; rfl⟩
  exact List.mem_map.2 ⟨_, Entries.mem_of_get?_eq_some hv, rfl⟩

private theorem exists_get? (h : Entries.contains es (text n) = true) :
    ∃ v, Entries.get? es (text n) = some v :=
  Option.isSome_iff_exists.1 (Entries.get?_isSome_iff.2 (Entries.contains_text_iff.1 h))

/-- What is found under a name on one side is found on the other, without changes between the two. -/
theorem of_between_map (h : between (.map es) (.map fs) = []) (hn : isPrivate (text n) = false)
    (hv : Entries.get? es (text n) = some v) :
    ∃ w, Entries.get? fs (text n) = some w ∧ between v w = [] := by
  obtain ⟨-, hkeys, hentries⟩ := between_map h
  obtain ⟨w, hw⟩ := exists_get? (hkeys _ (mem_keysOf hn hv))
  exact ⟨w, hw, of_betweenEntries hentries (Entries.mem_of_get?_eq_some hv) hn hw⟩

theorem between_getOrNull {u : Value} (h : between v w = []) (hn : isPrivate (text n) = false)
    (hv : v.getOrNull n = u) (hu : u ≠ .null) : between u (w.getOrNull n) = [] := by
  have hget := Value.get?_of_getOrNull hv hu
  cases v with
  | map es =>
      cases w with
      | map fs =>
          obtain ⟨w, hw, hbetween⟩ := of_between_map h hn hget
          rw [Value.getOrNull, Value.get?_map, hw]
          exact hbetween
      | _ => simp [between, here] at h
  | _ => cases hget

/-! ### Lists -/

theorem forall₂_of_betweenItems {vs ws : List Value} {i : Nat} (h : betweenItems i vs ws = []) :
    List.Forall₂ (fun v w => between v w = []) vs ws := by
  induction vs generalizing ws i with
  | nil =>
      cases ws with
      | nil => exact .nil
      | cons w ws => simp [betweenItems] at h
  | cons v vs ih =>
      cases ws with
      | nil => simp [betweenItems] at h
      | cons w ws =>
          rw [betweenItems, List.append_eq_nil_iff, List.map_eq_nil_iff] at h
          exact .cons h.1 (ih h.2)

/-- Lists that do not hold plain data alone agree item by item. -/
theorem forall₂_of_between_list {vs ws : List Value} (hvs : vs.all isPlain = false)
    (h : between (.list vs) (.list ws) = []) :
    List.Forall₂ (fun v w => between v w = []) vs ws := by
  simp only [between, hvs, Bool.false_and, Bool.false_eq_true, if_false] at h
  exact forall₂_of_betweenItems h

end Difference

end FormDesigner
