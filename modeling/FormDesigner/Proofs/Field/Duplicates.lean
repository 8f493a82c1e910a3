import Mathlib
import FormDesigner.Proofs.Field.Tree

/-!
# What occurs twice

The pass over a list notes a text where it meets it for the second time. So every text that occurs
more than once is noted, once only, and the texts stand in the order of their second occurrences.
Whether they also occur first in that order depends on how their occurrences interleave.
-/

namespace FormDesigner

/-- Where a text stands in a list for the second time. -/
def recurrence (ss : List String) (s : String) : Nat :=
  ss.idxOf s + 1 + (ss.drop (ss.idxOf s + 1)).idxOf s

variable {ss before : List String} {s t : String}

/-! ### Second occurrences -/

/-- A text that occurs twice, with what stands before its first occurrence and between the two. -/
theorem exists_recurrence (h : 1 < ss.count s) :
    ∃ as bs cs, ss = as ++ s :: (bs ++ s :: cs) ∧ s ∉ as ∧ s ∉ bs := by
  obtain ⟨as, rest, rfl, has⟩ :=
    List.eq_append_cons_of_mem (List.count_pos_iff.1 (Nat.zero_lt_of_lt h))
  have hrest : 0 < rest.count s := by
    rw [List.count_append, List.count_eq_zero_of_not_mem has, List.count_cons_self] at h
    omega
  obtain ⟨bs, cs, rfl, hbs⟩ := List.eq_append_cons_of_mem (List.count_pos_iff.1 hrest)
  exact ⟨as, bs, cs, rfl, has, hbs⟩

theorem recurrence_eq {as bs cs : List String} (has : s ∉ as) (hbs : s ∉ bs) :
    recurrence (as ++ s :: (bs ++ s :: cs)) s = as.length + 1 + bs.length := by
  have hfirst : (as ++ s :: (bs ++ s :: cs)).idxOf s = as.length := by
    rw [List.idxOf_append_of_notMem has, List.idxOf_cons_self, Nat.add_zero]
  have hdrop : (as ++ s :: (bs ++ s :: cs)).drop (as.length + 1) = bs ++ s :: cs := by
    rw [List.drop_append]
    simp
  rw [recurrence, hfirst, hdrop, List.idxOf_append_of_notMem hbs, List.idxOf_cons_self]
  omega

theorem recurrence_append (h : 1 < before.count s) (ss : List String) :
    recurrence (before ++ ss) s = recurrence before s := by
  obtain ⟨as, bs, cs, rfl, has, hbs⟩ := exists_recurrence h
  rw [recurrence_eq has hbs, List.append_assoc, List.cons_append, List.append_assoc,
    List.cons_append, recurrence_eq has hbs]

theorem recurrence_lt (h : 1 < ss.count s) : recurrence ss s < ss.length := by
  obtain ⟨as, bs, cs, rfl, has, hbs⟩ := exists_recurrence h
  rw [recurrence_eq has hbs]
  simp only [List.length_append, List.length_cons]
  omega

/-- A text that has occurred once recurs where it stands next. -/
theorem recurrence_of_count_eq_one (h : before.count s = 1) :
    recurrence (before ++ [s]) s = before.length := by
  obtain ⟨as, bs, rfl, has⟩ := List.eq_append_cons_of_mem (List.count_pos_iff.1 (h ▸ Nat.one_pos))
  have hbs : s ∉ bs := by
    rw [List.count_append, List.count_eq_zero_of_not_mem has, List.count_cons_self] at h
    exact List.count_eq_zero.1 (by omega)
  rw [List.append_assoc, List.cons_append, recurrence_eq has hbs, List.length_append,
    List.length_cons]
  omega

/-! ### The pass -/

/-- The texts that occur more than once among those passed so far, each once, in the order in which
they recur. -/
structure Recurs (before found : List String) : Prop where
  nodup : found.Nodup
  mem_iff : ∀ s, s ∈ found ↔ 1 < before.count s
  ordered : found.Pairwise fun s t => recurrence before s < recurrence before t

theorem Recurs.nil : Recurs [] [] where
  nodup := List.nodup_nil
  mem_iff s := by simp
  ordered := .nil

/-- What the pass looks at tells it whether a text has occurred exactly once. -/
theorem Recurs.unnoted_iff {found : List String} (h : Recurs before found) :
    s ∈ before ∧ s ∉ found ↔ before.count s = 1 := by
  rw [← List.count_pos_iff, h.mem_iff]
  omega

private theorem count_concat (before : List String) (s t : String) :
    (before ++ [s]).count t = before.count t + if s = t then 1 else 0 := by
  rw [List.count_append, List.count_singleton]
  simp only [beq_iff_eq]

theorem Recurs.ordered_concat {found : List String} (h : Recurs before found) (s : String) :
    found.Pairwise fun t u => recurrence (before ++ [s]) t < recurrence (before ++ [s]) u := by
  refine h.ordered.imp_of_mem fun {t u} ht hu htu => ?_
  rwa [recurrence_append ((h.mem_iff t).1 ht), recurrence_append ((h.mem_iff u).1 hu)]

/-- A text that has occurred once is noted where it stands next, behind all that recurred before. -/
theorem Recurs.note {found : List String} (h : Recurs before found) (hs : before.count s = 1) :
    Recurs (before ++ [s]) (found ++ [s]) where
  nodup := by
    refine List.nodup_append.2 ⟨h.nodup, List.nodup_singleton s, ?_⟩
    rintro t ht u hu rfl
    exact (h.unnoted_iff.2 hs).2 (List.mem_singleton.1 hu ▸ ht)
  mem_iff := by
    intro t
    rw [List.mem_append, List.mem_singleton, h.mem_iff, count_concat]
    by_cases hst : s = t
    · subst hst
      simp [hs]
    · simp [hst, Ne.symm hst]
  ordered := by
    refine List.pairwise_append.2 ⟨h.ordered_concat s, List.pairwise_singleton _ _, ?_⟩
    intro t ht u hu
    obtain rfl := List.mem_singleton.1 hu
    have hcount := (h.mem_iff t).1 ht
    rw [recurrence_append hcount, recurrence_of_count_eq_one hs]
    exact recurrence_lt hcount

/-- A text that has not occurred, or that is noted already, is passed over. -/
theorem Recurs.skip {found : List String} (h : Recurs before found) (hs : before.count s ≠ 1) :
    Recurs (before ++ [s]) found where
  nodup := h.nodup
  mem_iff := by
    intro t
    rw [h.mem_iff, count_concat]
    by_cases hst : s = t
    · subst hst
      rw [if_pos rfl]
      omega
    · rw [if_neg hst, Nat.add_zero]
  ordered := h.ordered_concat s

/-- A whole pass, by induction on what is left of the list. -/
theorem Recurs.run {found : List String} {seen : List Value} (h : Recurs before found)
    (hseen : ∀ s, Value.text s ∈ seen ↔ s ∈ before) (ss : List String) :
    ∃ all, duplicatesFrom seen (found.map .text) (ss.map .text) = all.map .text ∧
      Recurs (before ++ ss) all := by
  induction ss generalizing before found seen with
  | nil => exact ⟨found, rfl, (List.append_nil before).symm ▸ h⟩
  | cons s ss ih =>
      have hnext : ∀ t, Value.text t ∈ Value.text s :: seen ↔ t ∈ before ++ [s] := by
        intro t
        rw [List.mem_cons, hseen, List.mem_append, List.mem_singleton, Value.text.injEq, or_comm]
      have hcond : ((Value.text s).among seen && !(Value.text s).among (found.map .text)) = true ↔
          before.count s = 1 := by
        have hfound : Value.text s ∈ found.map .text ↔ s ∈ found := by simp
        rw [Bool.and_eq_true, Bool.not_eq_true', ← Bool.not_eq_true, Value.among_text_iff,
          Value.among_text_iff, hseen, hfound, h.unnoted_iff]
      rw [List.map_cons, duplicatesFrom, List.append_cons before]
      by_cases hs : before.count s = 1
      · rw [if_pos (hcond.2 hs)]
        have hrest := ih (h.note hs) hnext
        rwa [List.map_append, List.map_singleton] at hrest
      · rw [if_neg (mt hcond.1 hs)]
        exact ih (h.skip hs) hnext

theorem exists_duplicates (ss : List String) :
    ∃ ds, duplicates (ss.map .text) = ds.map .text ∧ Recurs ss ds :=
  Recurs.nil.run (fun s => by simp) ss

private theorem lt_iff_of_pairwise {f : String → Nat} {ds : List String}
    (h : ds.Pairwise fun s t => f s < f t) {i j : Nat} (hi : i < ds.length) (hj : j < ds.length) :
    f ds[i] < f ds[j] ↔ i < j := by
  have hmono := List.pairwise_iff_getElem.1 h
  constructor
  · intro hlt
    rcases Nat.lt_trichotomy i j with hij | rfl | hji
    · exact hij
    · exact absurd hlt (Nat.lt_irrefl _)
    · exact absurd (hmono j i hj hi hji) (Nat.lt_asymm hlt)
  · exact hmono i j hi hj

/-- The texts that recur stand in the order of their first occurrences exactly if any two of them
recur in that order. -/
theorem Recurs.ordered_by_first_iff {ds : List String} (h : Recurs ss ds) :
    (ds.Pairwise fun s t => ss.idxOf s < ss.idxOf t) ↔
      ∀ s t, 1 < ss.count s → 1 < ss.count t → ss.idxOf s < ss.idxOf t →
        recurrence ss s < recurrence ss t := by
  constructor
  · intro hfirst s t hs ht hlt
    obtain ⟨i, hi, rfl⟩ := List.getElem_of_mem ((h.mem_iff s).2 hs)
    obtain ⟨j, hj, rfl⟩ := List.getElem_of_mem ((h.mem_iff t).2 ht)
    exact (lt_iff_of_pairwise h.ordered hi hj).2 ((lt_iff_of_pairwise hfirst hi hj).1 hlt)
  · intro hrecur
    refine h.ordered.imp_of_mem fun {s t} hs ht hlt => ?_
    have hs := (h.mem_iff s).1 hs
    have ht := (h.mem_iff t).1 ht
    by_contra hnot
    rcases Nat.lt_or_eq_of_le (Nat.not_lt.1 hnot) with hgt | heq
    · exact Nat.lt_asymm hlt (hrecur t s ht hs hgt)
    · obtain rfl := (List.idxOf_inj (List.count_pos_iff.1 (Nat.zero_lt_of_lt ht))).1 heq
      exact Nat.lt_irrefl _ hlt

/-- For all texts, the pass yields those that occur more than once, each of them once, in the order
of their second occurrences. That is the order of their first occurrences exactly if any two of them
recur in the order in which they first occur. -/
theorem duplicates_by_recurrence (ss : List String) :
    ∃ ds : List String, duplicates (ss.map .text) = ds.map .text ∧ ds.Nodup ∧
      (∀ s, s ∈ ds ↔ 1 < ss.count s) ∧
      (ds.Pairwise fun s t => recurrence ss s < recurrence ss t) ∧
      ((ds.Pairwise fun s t => ss.idxOf s < ss.idxOf t) ↔
        ∀ s t, 1 < ss.count s → 1 < ss.count t → ss.idxOf s < ss.idxOf t →
          recurrence ss s < recurrence ss t) := by
  obtain ⟨ds, hds, h⟩ := exists_duplicates ss
  exact ⟨ds, hds, h.nodup, h.mem_iff, h.ordered, h.ordered_by_first_iff⟩

/-- One text around both occurrences of another. -/
def enclosing : List String := ["a", "b", "b", "a"]

/-- The outer text occurs first but recurs last. -/
theorem duplicates_enclosing :
    duplicates (enclosing.map .text) = [.text "b", .text "a"] ∧
      ∀ ds : List String, duplicates (enclosing.map .text) = ds.map .text →
        ¬ ds.Pairwise fun s t => enclosing.idxOf s < enclosing.idxOf t := by
  refine ⟨by cbv, fun ds hds hfirst => ?_⟩
  obtain ⟨ds', hds', -, -, -, hiff⟩ := duplicates_by_recurrence enclosing
  obtain rfl : ds = ds' :=
    List.map_injective_iff.2 (fun _ _ => Value.text.inj) (hds.symm.trans hds')
  exact absurd (hiff.1 hfirst "a" "b" (by decide) (by decide) (by decide)) (by decide)

end FormDesigner
