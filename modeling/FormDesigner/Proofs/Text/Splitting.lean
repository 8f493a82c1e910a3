import Mathlib.Data.String.Basic

/-!
# Taking a text apart

A text is taken apart at one character, into the pieces between the places where it stands. None of
the pieces holds that character, and texts that do not hold it are the pieces of what they are
joined to by it.
-/

namespace FormDesigner

namespace Text

open String in
/-- Induction on what is left to be read of a text: the pieces in `l` are found already, in reverse
order, and `m` is what has been read of the next one. -/
theorem splitOnAux_singleton (sep : Char) (l m r : List Char) (found : List String) :
    (ofList (l ++ m ++ r)).splitOnAux (singleton sep) ⟨utf8Len l⟩ ⟨utf8Len l + utf8Len m⟩ 0 found =
      found.reverse ++ (List.splitOnPPrepend (· == sep) r m.reverse).map ofList := by
  have hpart : Pos.Raw.extract (ofList (l ++ m ++ r)) ⟨utf8Len l⟩ ⟨utf8Len l + utf8Len m⟩ =
      ofList m := extract_of_valid l m r
  induction r generalizing l m found with
  | nil =>
      have hend : Pos.Raw.atEnd (ofList (l ++ m ++ [])) ⟨utf8Len l + utf8Len m⟩ = true := by
        rw [← utf8Len_append]
        exact (atEnd_of_valid (l ++ m) []).2 rfl
      rw [String.splitOnAux, if_pos hend, hpart, List.splitOnPPrepend_nil, List.reverse_reverse]
      simp
  | cons c r ih =>
      have hend : ¬ Pos.Raw.atEnd (ofList (l ++ m ++ c :: r)) ⟨utf8Len l + utf8Len m⟩ = true := by
        rw [← utf8Len_append]
        exact mt (atEnd_of_valid (l ++ m) (c :: r)).1 (List.cons_ne_nil c r)
      have hget : Pos.Raw.get (ofList (l ++ m ++ c :: r)) ⟨utf8Len l + utf8Len m⟩ = c := by
        rw [← utf8Len_append]
        exact get_of_valid (l ++ m) (c :: r)
      have hnext : Pos.Raw.next (ofList (l ++ m ++ c :: r)) ⟨utf8Len l + utf8Len m⟩ =
          ⟨utf8Len l + utf8Len m + c.utf8Size⟩ := by
        rw [← utf8Len_append]
        exact next_of_valid (l ++ m) c r
      have hsep : Pos.Raw.get (singleton sep) 0 = sep := get_of_valid [] [sep]
      rw [String.splitOnAux, if_neg hend, hget, hsep, List.splitOnPPrepend_cons_eq_if]
      dsimp only
      split
      · rename_i heq
        have hc : c = sep := beq_iff_eq.1 heq
        have hsepnext : Pos.Raw.next (singleton sep) 0 = ⟨utf8Len [sep]⟩ := next_of_valid [] sep []
        have hsepend : Pos.Raw.atEnd (singleton sep) ⟨utf8Len [sep]⟩ = true :=
          (atEnd_of_valid [sep] []).2 rfl
        have hback : (⟨utf8Len l + utf8Len m + c.utf8Size⟩ : Pos.Raw).unoffsetBy ⟨utf8Len [sep]⟩ =
            ⟨utf8Len l + utf8Len m⟩ := by
          simp [Pos.Raw.ext_iff, hc]
        have hlater := ih (l ++ m ++ [c]) [] (ofList m :: found) (extract_of_valid _ _ _)
        rw [hnext, hsepnext, if_pos hsepend, hback, hpart]
        simpa [Nat.add_assoc] using hlater
      · have hstay : (⟨utf8Len l + utf8Len m⟩ : Pos.Raw).unoffsetBy 0 =
            ⟨utf8Len l + utf8Len m⟩ := rfl
        have hlater := ih l (m ++ [c]) found (extract_of_valid _ _ _)
        rw [hstay, hnext]
        simpa [Nat.add_assoc] using hlater

/-- The pieces of a text between the places of one character. -/
theorem splitOn_singleton (s : String) (sep : Char) :
    s.splitOn (String.singleton sep) = (s.toList.splitOn sep).map String.ofList := by
  have hsep : ¬ (String.singleton sep == "") = true := by
    rw [beq_iff_eq]
    intro h
    have := congrArg String.toList h
    simp at this
  have hall := splitOnAux_singleton sep [] [] s.toList []
  rw [String.splitOn, if_neg hsep, List.splitOn_eq_splitOnP, List.splitOnP_eq_splitOnPPrepend]
  simpa using hall

/-- Without the character, there is one piece. -/
theorem splitOn_of_notMem {sep : Char} {s : String} (h : sep ∉ s.toList) :
    s.splitOn (String.singleton sep) = [s] := by
  rw [splitOn_singleton, List.splitOn_eq_singleton h, List.map_singleton, String.ofList_toList]

/-- Texts that are joined by a character that none of them holds are the pieces of what they are
joined to. -/
theorem splitOn_intercalate {sep : Char} {pieces : List String} (hne : pieces ≠ [])
    (hsep : ∀ s ∈ pieces, sep ∉ s.toList) :
    ((String.singleton sep).intercalate pieces).splitOn (String.singleton sep) = pieces := by
  rw [splitOn_singleton, String.toList_intercalate, String.toList_singleton,
    List.splitOn_intercalate sep]
  · simp [Function.comp_def]
  · simpa using hsep
  · simpa using hne

theorem not_mem_of_mem_splitOnPPrepend {sep : Char} {cs before piece : List Char}
    (hbefore : sep ∉ before) (h : piece ∈ List.splitOnPPrepend (· == sep) cs before) :
    sep ∉ piece := by
  induction cs generalizing before with
  | nil =>
      rw [List.splitOnPPrepend_nil] at h
      rwa [List.mem_singleton.1 h, List.mem_reverse]
  | cons c cs ih =>
      rw [List.splitOnPPrepend_cons_eq_if] at h
      split at h
      · rcases List.mem_cons.1 h with rfl | h
        · rwa [List.mem_reverse]
        · exact ih List.not_mem_nil h
      · rename_i hc
        refine ih (fun hmem => ?_) h
        rcases List.mem_cons.1 hmem with rfl | hmem
        · exact hc (beq_self_eq_true sep)
        · exact hbefore hmem

theorem not_mem_of_mem_splitOn {sep : Char} {s piece : String}
    (h : piece ∈ s.splitOn (String.singleton sep)) : sep ∉ piece.toList := by
  rw [splitOn_singleton] at h
  obtain ⟨cs, hcs, rfl⟩ := List.mem_map.1 h
  rw [String.toList_ofList]
  exact not_mem_of_mem_splitOnPPrepend List.not_mem_nil hcs

end Text

end FormDesigner
