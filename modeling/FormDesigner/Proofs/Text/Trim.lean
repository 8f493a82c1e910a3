import FormDesigner.Text.Character
import Mathlib.Data.List.DropRight
import Mathlib.Data.List.TakeWhile

/-!
# Trimming

What is left of a text without the blanks around it holds only characters of the text, and loses
nothing when it is trimmed again.
-/

namespace FormDesigner

namespace Text

variable {cs : List Char} {s : String}

theorem trim_of_isAllBlank (h : isAllBlank s = true) : trim s = "" := by
  have hblank : s.toList.dropWhile isBlank = [] :=
    List.dropWhile_eq_nil_iff.2 (List.all_eq_true.1 h)
  rw [trim, trimChars, hblank]
  rfl

theorem trim_of_forall (h : ∀ c ∈ s.toList, isBlank c = false) : trim s = s := by
  have hdrop : ∀ {cs : List Char}, (∀ c ∈ cs, isBlank c = false) → cs.dropWhile isBlank = cs := by
    intro cs hcs
    cases cs with
    | nil => rfl
    | cons c cs => simp [hcs c (.head _)]
  rw [trim, trimChars, hdrop h, hdrop fun c hc => h c (List.mem_reverse.1 hc), List.reverse_reverse,
    String.ofList_toList]

/-- Between blanks and nothing, a text that neither begins nor ends with a blank is left. -/
theorem trimChars_append {bs : List Char} (hhead : ∀ c ∈ cs.head?, isBlank c = false)
    (hlast : ∀ c ∈ cs.getLast?, isBlank c = false) (hbs : ∀ c ∈ bs, isBlank c = true) :
    trimChars (cs ++ bs) = cs := by
  have hinit : (cs ++ bs).reverse.dropWhile isBlank = cs.reverse := by
    rw [List.reverse_append, List.dropWhile_append_of_pos fun c hc => hbs c (List.mem_reverse.1 hc)]
    cases hcs : cs.reverse with
    | nil => rfl
    | cons c rest =>
        have hc : isBlank c = false := hlast c (by rw [← List.head?_reverse, hcs]; rfl)
        simp [hc]
  cases cs with
  | nil =>
      have hdrop : bs.dropWhile isBlank = [] := List.dropWhile_eq_nil_iff.2 hbs
      simp [trimChars, hdrop]
  | cons c cs =>
      have hc : isBlank c = false := hhead c rfl
      rw [trimChars, List.cons_append, List.dropWhile_cons_of_neg (by simp [hc]),
        ← List.cons_append, hinit, List.reverse_reverse]

/-- Nothing is trimmed exactly if there is no blank at either end. -/
theorem trimChars_eq_self_iff : trimChars cs = cs ↔
    (∀ c ∈ cs.head?, isBlank c = false) ∧ ∀ c ∈ cs.getLast?, isBlank c = false := by
  constructor
  · intro h
    have hprefix : trimChars cs <+: cs.dropWhile isBlank := List.rdropWhile_prefix _ _
    have hlength : cs.length ≤ (cs.dropWhile isBlank).length := by
      have := hprefix.length_le
      rwa [h] at this
    have hdrop : cs.dropWhile isBlank = cs :=
      (List.dropWhile_suffix isBlank).eq_of_length_le hlength
    have hlast : cs.rdropWhile isBlank = cs := by
      have hboth : trimChars cs = (cs.dropWhile isBlank).rdropWhile isBlank := rfl
      rwa [h, hdrop, eq_comm] at hboth
    refine ⟨fun c hc => ?_, fun c hc => ?_⟩
    · have hfirst := List.head?_dropWhile_not isBlank cs
      rw [hdrop, Option.mem_def.1 hc] at hfirst
      exact hfirst
    · have hne : cs ≠ [] := by
        rintro rfl
        cases hc
      rw [List.getLast?_eq_some_getLast hne] at hc
      rw [← Option.some.inj hc]
      exact Bool.eq_false_iff.2 (List.rdropWhile_eq_self_iff.1 hlast hne)
  · rintro ⟨hhead, hlast⟩
    have htrim := trimChars_append hhead hlast (List.forall_mem_nil _)
    rwa [List.append_nil] at htrim

theorem trimChars_append_blank (cs : List Char) : trimChars (cs ++ [' ']) = trimChars cs := by
  have hblank : isBlank ' ' = true := rfl
  unfold trimChars
  rw [List.dropWhile_append]
  split
  · next h =>
      rw [List.isEmpty_iff] at h
      simp [h, hblank]
  · simp [hblank]

theorem trimChars_cons_blank (cs : List Char) : trimChars (' ' :: cs) = trimChars cs := by
  have hblank : isBlank ' ' = true := rfl
  simp [trimChars, hblank]

theorem mem_of_mem_trimChars {c : Char} (h : c ∈ trimChars cs) : c ∈ cs := by
  have h := List.mem_reverse.1 h
  have h := List.mem_reverse.1 ((List.dropWhile_sublist _).subset h)
  exact (List.dropWhile_sublist _).subset h

theorem trimChars_trimChars (cs : List Char) : trimChars (trimChars cs) = trimChars cs := by
  -- What is left begins with the first character that is not blank.
  have hinit : trimChars cs <+: cs.dropWhile isBlank := List.rdropWhile_prefix _ _
  have hdrop : (trimChars cs).dropWhile isBlank = trimChars cs := by
    rw [List.dropWhile_eq_self_iff]
    intro hl
    rw [hinit.getElem hl]
    exact List.dropWhile_get_zero_not _ _ (hl.trans_le hinit.length_le)
  have hlast : (trimChars cs).rdropWhile isBlank = trimChars cs :=
    List.rdropWhile_idempotent _ _
  calc trimChars (trimChars cs) = ((trimChars cs).dropWhile isBlank).rdropWhile isBlank := rfl
    _ = trimChars cs := by rw [hdrop, hlast]

theorem trim_ofList_trimChars (cs : List Char) :
    trim (String.ofList (trimChars cs)) = String.ofList (trimChars cs) := by
  rw [trim, String.toList_ofList, trimChars_trimChars]

theorem trimChars_toList (h : trim s = s) : trimChars s.toList = s.toList := by
  have := congrArg String.toList h
  rwa [trim, String.toList_ofList] at this

end Text

end FormDesigner
