import FormDesigner.Designer.Inspector
import FormDesigner.Proofs.Schema.Shape
import FormDesigner.Proofs.Text.Trim
import FormDesigner.Proofs.Yaml.Recovery

/-!
# Default values in a box

A default value is shown as it is written on a line, without the blanks around it and without the
mark for the end of a document. What is no text is read back from this.
-/

namespace FormDesigner

open Text (trim trimChars isBlank)

theorem Text.isBlank_of_isQuiet {c : Char} (h : Yaml.isQuiet c = true) : isBlank c = false := by
  have := Yaml.toNat_of_isQuiet h
  simp only [isBlank, Bool.or_eq_false_iff, Bool.and_eq_false_iff, decide_eq_false_iff_not,
    beq_eq_false_iff_ne]
  omega

namespace Shape

variable {v : Value}

/-- A check that only lets scalars through. -/
private theorem isScalar_of_scalarChecks {c : String × Check} (hc : c ∈ scalarChecks)
    (h : c.2 v = []) : v.isScalar = true := by
  simp only [scalarChecks, List.mem_cons, List.not_mem_nil, or_false] at hc
  rcases hc with rfl | rfl | rfl | rfl <;> cases v with
  | list | tuple | set | map => exact absurd h here_ne_nil
  | _ => rfl

theorem isScalar_of_scalar (h : scalar v = []) : v.isScalar = true := by
  obtain ⟨c, hc, hv⟩ := (oneOf_eq_nil_iff (by simp [scalarChecks])).1 h
  exact isScalar_of_scalarChecks hc hv

/-- A default value is a scalar or a list of scalars. -/
theorem scalar_or_list_of_default (h : optional defaultValue v = []) :
    v.isScalar = true ∨ ∃ xs, v = .list xs ∧ ∀ x ∈ xs, x.isScalar = true := by
  rcases optional_eq_nil_iff.1 h with rfl | h
  · exact .inl rfl
  · obtain ⟨c, hc, hv⟩ := (oneOf_eq_nil_iff (by simp)).1 h
    rcases List.mem_append.1 hc with hc | hc
    · exact .inl (isScalar_of_scalarChecks hc hv)
    · obtain rfl := List.mem_singleton.1 hc
      cases v with
      | list xs =>
          exact .inr ⟨xs, rfl, fun x hx => isScalar_of_scalar (eachItem_eq_nil_iff.1 hv x hx)⟩
      | _ => exact absurd hv here_ne_nil

end Shape

namespace Inspector

variable {v : Value} {s : String} {cs : List Char}

/-! ### What is shown -/

theorem endsWith_iff {pattern : String} :
    s.endsWith pattern = true ↔ pattern.toList <:+ s.toList := by
  rw [String.endsWith_eq_endsWith_toSlice, String.Slice.endsWith_string_iff, String.copy_toSlice]

theorem withoutEndMark_of_mark (cs : List Char) :
    withoutEndMark (String.ofList (cs ++ ['.', '.', '.'])) = String.ofList cs := by
  have hmark : (String.ofList (cs ++ ['.', '.', '.'])).endsWith "..." = true := by
    have hdots : "...".toList = ['.', '.', '.'] := rfl
    rw [endsWith_iff, hdots, String.toList_ofList]
    exact List.suffix_append _ _
  have hlength : (cs ++ ['.', '.', '.']).length - 3 = cs.length := by simp
  rw [withoutEndMark, if_pos hmark, String.length_ofList, String.toList_ofList, hlength,
    List.take_left]

theorem withoutEndMark_of_last {c : Char} (hc : c ≠ '.') (cs : List Char) :
    withoutEndMark (String.ofList (cs ++ [c])) = String.ofList (cs ++ [c]) := by
  refine if_neg fun hmark => hc ?_
  obtain ⟨ds, hds⟩ := endsWith_iff.1 hmark
  have := congrArg List.getLast? hds
  simpa using this.symm

theorem trim_ofList {bs : List Char} (hhead : ∀ c ∈ cs.head?, isBlank c = false)
    (hlast : ∀ c ∈ cs.getLast?, isBlank c = false) (hbs : ∀ c ∈ bs, isBlank c = true) :
    trim (String.ofList (cs ++ bs)) = String.ofList cs := by
  rw [trim, String.toList_ofList, Text.trimChars_append hhead hlast hbs]

/-- What is written in YAML is shown without the blanks and the mark at its end. -/
theorem defaultText_of_write {written : String} (hnull : v ≠ .null) (htext : ∀ t, v ≠ .text t)
    (h : Yaml.write .inline v = .ok written) :
    defaultText v = .ok (trim (withoutEndMark (trim written))) := by
  unfold defaultText
  split
  · exact absurd rfl hnull
  · exact absurd rfl (htext _)
  · rw [h, Result.ok_bind]
    rfl

section Calm

variable (h : Yaml.IsCalm cs)

include h

private theorem isBlank_ends : (∀ c ∈ cs.head?, isBlank c = false) ∧
    ∀ c ∈ cs.getLast?, isBlank c = false :=
  ⟨fun c hc => Text.isBlank_of_isQuiet (h.quiet c (List.mem_of_mem_head? hc)),
    fun c hc => Text.isBlank_of_isQuiet (h.quiet c (List.mem_of_getLast? hc))⟩

theorem trim_calm : trim (String.ofList cs) = String.ofList cs := by
  simpa using trim_ofList (isBlank_ends h).1 (isBlank_ends h).2 (List.forall_mem_nil _)

/-- The mark for the end of the document is not shown. -/
theorem trim_withoutEndMark :
    trim (withoutEndMark (trim (String.ofList (cs ++ "\n...\n".toList)))) = String.ofList cs := by
  have hmarked : trim (String.ofList (cs ++ "\n...\n".toList)) =
      String.ofList (cs ++ ['\n'] ++ ['.', '.', '.']) := by
    have hhead : ∀ c ∈ (cs ++ ['\n'] ++ ['.', '.', '.']).head?, isBlank c = false := by
      rw [List.append_assoc, List.head?_append_of_ne_nil _ h.ne_nil]
      exact (isBlank_ends h).1
    have hlast : ∀ c ∈ (cs ++ ['\n'] ++ ['.', '.', '.']).getLast?, isBlank c = false := by
      rw [List.getLast?_append_of_ne_nil _ (by simp)]
      exact fun c hc => Option.some.inj hc ▸ rfl
    rw [← trim_ofList hhead hlast (List.forall_mem_singleton.2 (rfl : isBlank '\n' = true))]
    simp
  rw [hmarked, withoutEndMark_of_mark]
  exact trim_ofList (isBlank_ends h).1 (isBlank_ends h).2 (List.forall_mem_singleton.2 rfl)

end Calm

theorem trim_brackets (cs : List Char) {bs : List Char} (hbs : ∀ c ∈ bs, isBlank c = true) :
    trim (String.ofList ('[' :: (cs ++ ']' :: bs))) = String.ofList ('[' :: (cs ++ [']'])) := by
  have hhead : ∀ c ∈ ('[' :: cs ++ [']']).head?, isBlank c = false :=
    fun c hc => Option.some.inj hc ▸ rfl
  have hlast : ∀ c ∈ ('[' :: cs ++ [']']).getLast?, isBlank c = false := by
    rw [List.getLast?_concat]
    exact fun c hc => Option.some.inj hc ▸ rfl
  have htrim := trim_ofList hhead hlast hbs
  rwa [List.append_assoc] at htrim

/-! ### What is read -/

theorem parseDefault_eq (typed : String) : parseDefault (.text typed) =
    if trim typed = "" then .ok .null
    else
      match Yaml.read false (trim typed) with
      | .ok v => .ok v
      | .error (.fault .markup _) => .ok (.text (trim typed))
      | .error f => .error f := by
  simp only [parseDefault, textOf, Result.ok_bind, String.isEmpty_iff]
  generalize Yaml.read false (trim typed) = answer
  rfl

/-- A text is read as it is typed if no blanks stand around it. -/
theorem parseDefault_text (hs : trim s = s) (hne : s ≠ "") (hread : Yaml.read false s = .ok v) :
    parseDefault (.text s) = .ok v := by
  rw [parseDefault_eq, hs, if_neg hne, hread]

/-- A default value that is no text is read back from what is shown of it. -/
theorem exists_default (hv : v.IsJson) (hshape : Shape.optional Shape.defaultValue v = []) :
    ∃ s, defaultText v = .ok s ∧ ((∀ t, v ≠ .text t) → parseDefault (.text s) = .ok v) := by
  by_cases hnull : v = .null
  · subst hnull
    exact ⟨"", rfl, fun _ => rfl⟩
  by_cases htext : ∃ t, v = .text t
  · obtain ⟨t, rfl⟩ := htext
    exact ⟨t, rfl, fun h => absurd rfl (h t)⟩
  have htext' : ∀ t, v ≠ .text t := fun t ht => htext ⟨t, ht⟩
  rcases Shape.scalar_or_list_of_default hshape with hscalar | ⟨xs, rfl, hscalar⟩
  · obtain ⟨cs, hcalm, hwrite, hread⟩ := Yaml.exists_scalar_read hv hscalar htext'
    refine ⟨String.ofList cs, ?_, fun _ => parseDefault_text (trim_calm hcalm) ?_ hread⟩
    · rw [defaultText_of_write hnull htext' hwrite, trim_withoutEndMark hcalm]
    · exact fun h => hcalm.ne_nil (String.ofList_eq_empty_iff.1 h)
  · obtain ⟨cs, hwrite, hread⟩ := Yaml.exists_list_read hv hscalar
    have htrim := trim_brackets cs (List.forall_mem_nil _)
    refine ⟨_, ?_, fun _ => parseDefault_text htrim (fun h => ?_) hread⟩
    · rw [defaultText_of_write hnull htext' hwrite, trim_brackets cs (by decide),
        ← List.cons_append, withoutEndMark_of_last (by decide), List.cons_append, htrim]
    · cases String.ofList_eq_empty_iff.1 h

end Inspector

end FormDesigner
