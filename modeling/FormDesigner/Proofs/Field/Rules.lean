import FormDesigner.Form.Validation
import FormDesigner.Proofs.Field.Fits
import FormDesigner.Proofs.Result
import FormDesigner.Proofs.Value.Writing

/-!
# The rules of fitting fields

The rules of a fitting field are none or a mapping, and its bounds are none or numbers in the range
of floating point, which can be written out. So the check of a quantity against the bounds gives a
message or none, whatever the quantity is, and never fails.
-/

namespace FormDesigner

namespace Value

variable {v : Value} {n : String}

/-- What the check of shapes finds under an attribute that a field may have. -/
theorem Fits.optional_of_shared (h : v.Fits) (n : String) (check : Shape.Check)
    (hn : ⟨n, false, Shape.optional check⟩ ∈ Shape.shared) :
    v.getOrNull n = .null ∨ check (v.getOrNull n) = [] := by
  cases h with
  | @intro es type kind own =>
      obtain ⟨-, -, valid⟩ := Shape.attributes_eq_nil_iff.1 own
      rw [getOrNull, get?_map]
      cases hw : Entries.get? es (.text n) with
      | none => exact .inl rfl
      | some w => exact Shape.optional_eq_nil_iff.1 (valid _ (List.mem_append_left _ hn) w hw)

theorem Fits.visibleWhen (h : v.Fits) :
    v.getOrNull "visibleWhen" = .null ∨ ∃ s, v.getOrNull "visibleWhen" = .text s :=
  (h.optional_of_shared "visibleWhen" Shape.text (by simp [Shape.shared])).imp_right
    Shape.text_eq_nil_iff.1

/-- The rules of a field. -/
def rules (v : Value) : Value := v.getOrNull "validation"

/-- The rules of a fitting field are none or a mapping that passes their check. -/
theorem Fits.rules_cases (h : v.Fits) :
    v.rules = .null ∨ ∃ es, v.rules = .map es ∧ Shape.rules (.map es) = [] := by
  refine (h.optional_of_shared "validation" Shape.rules (by simp [Shape.shared])).imp_right ?_
  change Shape.rules v.rules = [] → _
  intro hrules
  cases hv : v.rules with
  | map es => exact ⟨es, rfl, hv ▸ hrules⟩
  | _ =>
      rw [hv] at hrules
      exact absurd hrules Shape.here_ne_nil

/-- A bound is none or a number in the range of floating point. -/
theorem Fits.bound (h : v.Fits) (hn : n = "min" ∨ n = "max") :
    v.rules.getOrNull n = .null ∨ Shape.isMeasure (v.rules.getOrNull n) = true := by
  rcases h.rules_cases with hnull | ⟨es, hmap, hrules⟩
  · left
    rw [hnull]
    rfl
  · obtain ⟨-, -, valid⟩ := Shape.attributes_eq_nil_iff.1 hrules
    obtain ⟨hmin, valid⟩ := List.forall_mem_cons.1 valid
    obtain ⟨hmax, -⟩ := List.forall_mem_cons.1 valid
    rw [hmap, getOrNull, get?_map]
    cases hw : Entries.get? es (.text n) with
    | none => exact .inl rfl
    | some w =>
        have hcheck : Shape.optional Shape.measure w = [] := by
          rcases hn with rfl | rfl
          · exact hmin w hw
          · exact hmax w hw
        exact (Shape.optional_eq_nil_iff.1 hcheck).imp_right Shape.requires_eq_nil_iff.1

end Value

namespace Form

open Result

variable {field v : Value} {n : String}

theorem rulesOf_of_fits (h : field.Fits) :
    ∃ rules, rulesOf field = .ok rules ∧ ∀ n, rules.getOrNull n = field.rules.getOrNull n := by
  rcases h.rules_cases with hnull | ⟨es, hmap, -⟩
  · refine ⟨.map [], ?_, fun n => by rw [hnull]; rfl⟩
    change (if field.rules.isMap then _ else if field.rules.isTrue then _ else _) = _
    rw [hnull]
    rfl
  · have hisMap : field.rules.isMap = true := by rw [hmap, Value.isMap]
    exact ⟨field.rules, if_pos hisMap, fun n => rfl⟩

theorem bound?_of_fits (h : field.Fits) (n : String) :
    bound? field n = .ok (field.rules.getOrNull n).asNumber? := by
  obtain ⟨rules, hrules, hget⟩ := rulesOf_of_fits h
  rw [bound?, hrules, ok_bind, hget]
  rfl

/-- The bounds of a fitting field can be shown. -/
theorem exists_boundText (h : field.Fits) (hn : n = "min" ∨ n = "max") {b : Number}
    (hb : (field.rules.getOrNull n).asNumber? = some b) : ∃ text, boundText b = .ok text := by
  have hwritten : (Value.ofNumber b).joinText? ≠ none := by
    rcases h.bound hn with hnull | hmeasure
    · rw [hnull] at hb
      cases hb
    · intro hnone
      cases hv : field.rules.getOrNull n with
      | int m =>
          rw [hv] at hb hmeasure
          obtain rfl := Option.some.inj hb
          have hsize := Binary64.natAbs_lt_of_ofInt? hmeasure
          have htext := isSome_integerText?_of_lt_two_pow hsize
          rw [Value.holdsOverlong_int_iff.1 ((Value.joinText?_eq_none_iff _).1 hnone)] at htext
          cases htext
      | float x =>
          rw [hv] at hb
          obtain rfl := Option.some.inj hb
          exact Value.joinText?_float_ne_none x hnone
      | _ =>
          rw [hv] at hb
          cases hb
  obtain ⟨text, htext⟩ := Option.ne_none_iff_exists'.1 hwritten
  exact ⟨text, by rw [boundText, htext]⟩

/-- A quantity can be checked against the bounds of a fitting field. -/
theorem exists_checkBounds (h : field.Fits) (q : Number) (low high : String × String) :
    ∃ m, checkBounds field q low high = .ok m := by
  rw [checkBounds, bound?_of_fits h, bound?_of_fits h, ok_bind, ok_bind]
  dsimp only
  split
  · rename_i b hb
    obtain ⟨text, htext⟩ := exists_boundText h (.inl rfl) (Option.filter_eq_some_iff.1 hb).1
    exact ⟨_, by rw [htext]; rfl⟩
  · split
    · rename_i b hb
      obtain ⟨text, htext⟩ := exists_boundText h (.inr rfl) (Option.filter_eq_some_iff.1 hb).1
      exact ⟨_, by rw [htext]; rfl⟩
    · exact ⟨_, rfl⟩

theorem exists_checkNumber (h : field.Fits) (v : Value) : ∃ m, checkNumber field v = .ok m := by
  unfold checkNumber
  split
  · exact ⟨_, rfl⟩
  · split
    · exact exists_checkBounds h _ _ _
    · exact ⟨_, rfl⟩

theorem exists_checkCount (h : field.Fits) (v : Value) (verb noun : String) :
    ∃ m, checkCount field v verb noun = .ok m := by
  unfold checkCount
  split
  · exact ⟨_, rfl⟩
  · exact exists_checkBounds h _ _ _

end Form

end FormDesigner
