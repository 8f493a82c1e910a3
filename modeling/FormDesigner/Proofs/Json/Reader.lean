import FormDesigner.Json.Reader
import FormDesigner.Proofs.Number.Decimal
import FormDesigner.Proofs.Result
import FormDesigner.Proofs.Value.Domain

/-!
# What is read from JSON

Whatever is read from JSON is made of what JSON can stand for: its integers are short enough to be
written again, its numbers are rounded and have no labels, its mappings have text keys, and none of
them names a text twice: a member whose key occurred before takes the place of the earlier one.
-/

namespace FormDesigner

namespace Json

open Value (IsIn)

variable {cs rest : List Char} {v : Value} {fuel : Nat}

theorem word?_isIn (h : word? cs = some (v, rest)) : v.IsIn .readable := by
  obtain ⟨⟨w, u⟩, hmem, h⟩ := List.exists_of_findSome?_eq_some h
  have hu : u.isScalar = true ∧ u.IsReadScalar := by
    simp only [words, List.mem_cons, Prod.mk.injEq, List.not_mem_nil, or_false] at hmem
    rcases hmem with ⟨-, rfl⟩ | ⟨-, rfl⟩ | ⟨-, rfl⟩ | ⟨-, rfl⟩ | ⟨-, rfl⟩ | ⟨-, rfl⟩ <;>
      simp [Value.isScalar, Value.IsReadScalar]
  simp only [Option.ite_none_right_eq_some, Option.some.injEq, Prod.mk.injEq] at h
  obtain ⟨-, rfl, -⟩ := h
  exact .scalar hu.1 hu.2

/-- The digits before the fraction of a number. -/
private theorem isDigit_whole (body : List Char) :
    ∀ c ∈ body.take (if body.head? = some '0' then 1 else (body.takeWhile Char.isDigit).length),
      c.isDigit = true := by
  split
  · rename_i hhead
    obtain ⟨rest, rfl⟩ := List.head?_eq_some_iff.1 hhead
    simp
  · rw [← List.prefix_iff_eq_take.1 (List.takeWhile_prefix Char.isDigit)]
    exact fun c hc => List.mem_takeWhile_imp hc

theorem readNumber_isIn (h : readNumber cs = .ok (v, rest)) : v.IsIn .readable := by
  unfold readNumber at h
  extract_lets negative body whole at h
  split at h
  · cases h
  split at h
  · split at h
    · rename_i n hn
      obtain ⟨rfl, -⟩ := Prod.mk.inj (Except.ok.inj h)
      have hlt : n < Nat.pow 10 maxIntegerDigits := Text.boundedDigits_lt (isDigit_whole body) hn
      refine .scalar rfl (Value.isSome_integerText?_of_lt ?_)
      split
      · rwa [Int.natAbs_neg, Int.natAbs_natCast]
      · rwa [Int.natAbs_natCast]
    · cases h
  · split at h
    · obtain ⟨rfl, -⟩ := Prod.mk.inj (Except.ok.inj h)
      exact .scalar rfl fun label hlabel => absurd hlabel Binary64.ofDecimal_ne_nan
    · cases h

/-- Whatever is read with some fuel is made of what JSON can stand for: values, the items of an array,
and the members of an object on top of those before them. -/
private structure ReadsProper (fuel : Nat) : Prop where
  value : ∀ {cs v rest}, readValue fuel cs = .ok (v, rest) → v.IsIn .readable
  items : ∀ {cs vs rest}, readItems fuel cs = .ok (vs, rest) → ∀ v ∈ vs, v.IsIn .readable
  members : ∀ {es cs fs rest}, readMembers fuel es cs = .ok (fs, rest) →
    (Value.map es).IsIn .readable → (Value.map fs).IsIn .readable

private theorem ReadsProper.readValue (ih : ReadsProper fuel)
    (h : readValue (fuel + 1) cs = .ok (v, rest)) : v.IsIn .readable := by
  unfold Json.readValue at h
  split at h
  · obtain ⟨⟨s, rest'⟩, -, h⟩ := Result.bind_eq_ok.1 h
    obtain ⟨rfl, -⟩ := Prod.mk.inj (Except.ok.inj h)
    exact .text s
  · split at h
    · obtain ⟨rfl, -⟩ := Prod.mk.inj (Except.ok.inj h)
      exact .list (by simp)
    · obtain ⟨⟨vs, rest'⟩, hvs, h⟩ := Result.bind_eq_ok.1 h
      obtain ⟨rfl, -⟩ := Prod.mk.inj (Except.ok.inj h)
      exact .list (ih.items hvs)
  · split at h
    · obtain ⟨rfl, -⟩ := Prod.mk.inj (Except.ok.inj h)
      exact .empty
    · obtain ⟨⟨es, rest'⟩, hes, h⟩ := Result.bind_eq_ok.1 h
      obtain ⟨rfl, -⟩ := Prod.mk.inj (Except.ok.inj h)
      exact ih.members hes .empty
  · split at h
    · obtain rfl := Except.ok.inj h
      exact word?_isIn ‹_›
    · exact readNumber_isIn h

private theorem ReadsProper.readItems (ih : ReadsProper fuel) {vs : List Value}
    (h : readItems (fuel + 1) cs = .ok (vs, rest)) : ∀ v ∈ vs, v.IsIn .readable := by
  rw [Json.readItems] at h
  obtain ⟨⟨v, rest'⟩, hv, h⟩ := Result.bind_eq_ok.1 h
  simp only at h
  split at h
  · obtain ⟨rfl, -⟩ := Prod.mk.inj (Except.ok.inj h)
    exact List.forall_mem_singleton.2 (ih.value hv)
  · obtain ⟨⟨us, rest''⟩, hus, h⟩ := Result.bind_eq_ok.1 h
    obtain ⟨rfl, -⟩ := Prod.mk.inj (Except.ok.inj h)
    exact List.forall_mem_cons.2 ⟨ih.value hv, ih.items hus⟩
  · cases h

private theorem ReadsProper.readMembers (ih : ReadsProper fuel) {es fs : Entries}
    (h : readMembers (fuel + 1) es cs = .ok (fs, rest)) (hes : (Value.map es).IsIn .readable) :
    (Value.map fs).IsIn .readable := by
  unfold Json.readMembers at h
  split at h
  · obtain ⟨⟨key, rest'⟩, -, h⟩ := Result.bind_eq_ok.1 h
    simp only at h
    split at h
    · obtain ⟨⟨v, rest''⟩, hv, h⟩ := Result.bind_eq_ok.1 h
      have hinsert := hes.insert (Value.Domain.readable.key_text key) (ih.value hv)
      simp only at h
      split at h
      · obtain ⟨rfl, -⟩ := Prod.mk.inj (Except.ok.inj h)
        exact hinsert
      · exact ih.members h hinsert
      · cases h
    · cases h
  · cases h

private theorem readsProper (fuel : Nat) : ReadsProper fuel := by
  induction fuel with
  | zero =>
      refine ⟨fun h => ?_, fun h => ?_, fun h => ?_⟩
      · cases h
      · cases h
      · cases h
  | succ fuel ih => exact ⟨ih.readValue, ih.readItems, ih.readMembers⟩

/-- What is read is made of what JSON can stand for. -/
theorem isIn_of_read {s : String} (h : read s = .ok v) : v.IsIn .readable := by
  rw [read] at h
  obtain ⟨⟨w, rest⟩, hw, h⟩ := Result.bind_eq_ok.1 h
  simp only at h
  split at h
  · obtain rfl := Except.ok.inj h
    exact (readsProper _).value hw
  · cases h

theorem isIn_of_parse {s : String} (h : parse s = .ok v) : v.IsIn .readable := by
  unfold parse at h
  cases hread : read s with
  | error e => rw [hread] at h; cases h
  | ok w =>
      rw [hread] at h
      obtain rfl := Except.ok.inj h
      exact isIn_of_read hread

end Json

end FormDesigner
