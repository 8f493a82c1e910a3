import FormDesigner.Designer.Inspector
import FormDesigner.Proofs.Number.Exact
import FormDesigner.Proofs.Schema.Shape
import FormDesigner.Proofs.Text.Trim
import FormDesigner.Proofs.Yaml.Leaves

/-!
# Bounds in the inspector

What a box shows of a bound is read as a floating-point number, and as an integer again if it has no
fraction. So a bound comes back as the same number unless it is an integer that rounding changes.
-/

namespace FormDesigner

namespace Binary64

/-- An integer is rounded like the decimal that its digits write. -/
theorem ofDecimal_natAbs {n : Int} {x : Binary64} (h : ofInt? n = some x) :
    ofDecimal (decide (n < 0)) n.natAbs 0 = x := by
  rw [(eq_ofDyadic_of_ofInt? h).1, ofDyadic, ofDecimal_eq_ofRatio]
  refine ofRatio_congr _ (Ratio.den_ofDecimal_pos _ _) Nat.one_pos ?_
  rw [Ratio.value_ofDecimal]
  simp [Ratio.ofDyadic, Ratio.value]

end Binary64

namespace Inspector

open Yaml (IsNumeral)
open Binary64 (IsExact)

variable {s : String} {v : Value} {n : Int} {x : Binary64}

theorem numerics_not_blank : ∀ c ∈ Yaml.numerics, Text.isBlank c = false := by decide

/-- The text of a number is read as this number, without its fraction if that is zero. -/
theorem parseNumber_of_chars {negative : Bool} {w : WrittenDecimal} (hw : w.IsProper)
    (h : IsNumeral s negative w.chars) :
    parseNumber (.text s) = .ok (some (w.decimal.toBinary negative).whole) := by
  have htrim : Text.trim s = s := Text.trim_of_forall fun c hc => numerics_not_blank c (h.mem c hc)
  have hread : Yaml.floatText s.toList = .ok (w.decimal.toBinary negative) := by
    rw [Yaml.floatText, String.ofList_toList, Yaml.readFloat?_of_chars hw h]
  have hne : s.isEmpty = false := by simpa using h.ne_empty
  simp only [parseNumber, textOf, Result.ok_bind, htrim, hne, hread, Bool.false_eq_true, if_false,
    Binary64.whole]
  split <;> simp_all <;> rfl

theorem parseNumber_integer (hs : integerText? n = some s) (hx : Binary64.ofInt? n = some x) :
    parseNumber (.text s) = .ok (some x.whole) := by
  have hdigits : ∀ c ∈ Nat.toDigits 10 n.natAbs, c.isDigit = true := fun c hc =>
    Nat.isDigit_of_mem_toDigits (by decide) (by decide) hc
  have hzero : Nat.toDigits 10 n.natAbs = ['0'] ∨ (Nat.toDigits 10 n.natAbs).head? ≠ some '0' := by
    by_cases h : n.natAbs = 0
    · exact .inl (by rw [h, Nat.toDigits_zero])
    · exact .inr (Text.head?_toDigits_ne_zero h)
  let w : WrittenDecimal := ⟨Nat.toDigits 10 n.natAbs, [], none⟩
  have hw : w.IsProper := ⟨hdigits, List.forall_mem_nil _, Nat.toDigits_ne_nil, hzero⟩
  have hchars : w.chars = Nat.toDigits 10 n.natAbs := by
    simp [w, WrittenDecimal.chars, WrittenDecimal.fractionChars, WrittenDecimal.exponentChars]
  have hvalue : w.decimal.toBinary (decide (n < 0)) = x := by
    rw [← Binary64.ofDecimal_natAbs hx]
    simp [w, WrittenDecimal.decimal, Decimal.toBinary]
  rw [parseNumber_of_chars hw (hchars.symm ▸ Yaml.isNumeral_integerText hs), hvalue]

theorem parseNumber_float (hx : x.isFinite = true) :
    parseNumber (.text x.text) = .ok (some x.whole) := by
  cases x with
  | nan | infinite => cases hx
  | finite negative m e canonical =>
      obtain ⟨w, hw, -, hchars, hvalue⟩ := Binary64.text_eq_chars negative canonical
      rw [parseNumber_of_chars hw (Yaml.isNumeral_chars hw hchars), hvalue]

/-! ### Bounds come back -/

theorem plain_integer (hs : integerText? n = some s) : (Value.int n).plain = .ok s := by
  have hplain : (Value.int n).plain? = integerText? n := by
    rw [Value.plain?, Value.quoted?] <;> simp
  rw [Value.plain, hplain, hs]

theorem numberText_int (n : Int) : numberText (.int n) = (Value.int n).plain := by
  simp only [numberText]

theorem numberText_float (x : Binary64) :
    numberText (.float x) = (Value.ofNumber x.whole).plain := by
  unfold numberText Binary64.whole
  dsimp only
  generalize x.isInteger = b, x.truncate? = t
  cases b with
  | false => exact congrArg Value.plain rfl
  | true =>
      cases t with
      | none => exact congrArg Value.plain rfl
      | some n => exact congrArg Value.plain rfl

theorem equals_int_iff {a : Number} : (Value.ofNumber a).equals (.int n) = true ↔
    a = .int n ∨ ∃ x, a = .float x ∧ x.compareInt? n = some .eq := by
  cases a with
  | int k => simp [Value.ofNumber, Value.equals, Value.asQuantity?, Number.eq, Number.compare?]
  | float x => simp [Value.ofNumber, Value.equals, Value.asQuantity?, Number.eq, Number.compare?]

theorem equals_float_of_compareInt? (h : x.compareInt? n = some .eq) :
    (Value.int n).equals (.float x) = true := by
  simp [Value.equals, Value.asQuantity?, Number.eq, Number.compare?, h]

/-- An integer that is rounded is the same number only if it equals a floating-point number. -/
theorem whole_equals_int_iff (hx : Binary64.ofInt? n = some x) :
    (Value.ofNumber x.whole).equals (.int n) = true ↔ IsExact n := by
  rw [equals_int_iff]
  constructor
  · rintro (h | ⟨y, -, hy⟩)
    · rcases x.whole_cases with ⟨k, hk, hcompare⟩ | ⟨hk, -⟩
      · rw [hk, Number.int.injEq] at h
        exact ⟨x, hx, h ▸ hcompare⟩
      · cases hk.symm.trans h
    · exact Binary64.isExact_of_compareInt? hy
  · rintro ⟨y, hy, hcompare⟩
    obtain rfl := Option.some.inj (hx.symm.trans hy)
    exact .inl (Binary64.whole_of_compareInt? hcompare)

theorem whole_equals_float (hx : x.isFinite = true) :
    (Value.ofNumber x.whole).equals (.float x) = true := by
  rcases x.whole_cases with ⟨k, hk, hcompare⟩ | ⟨hk, -⟩
  · rw [hk]
    exact equals_float_of_compareInt? hcompare
  · rw [hk]
    exact Json.equals_self (.scalar rfl hx)

/-- What is typed as a bound is a bound. -/
theorem measure_whole (x : Binary64) : Shape.measure (Value.ofNumber x.whole) = [] := by
  refine Shape.requires_eq_nil_iff.2 ?_
  rcases x.whole_cases with ⟨k, hk, hcompare⟩ | ⟨hk, -⟩
  · obtain ⟨y, hy, -⟩ := Binary64.isExact_of_compareInt? hcompare
    rw [hk]
    exact Option.isSome_of_eq_some hy
  · rw [hk]
    rfl

/-- JSON can carry what is typed as a bound. -/
theorem isJson_whole (hx : x.isFinite = true) : (Value.ofNumber x.whole).IsJson := by
  rcases x.whole_cases with ⟨k, hk, hcompare⟩ | ⟨hk, -⟩
  · rw [hk]
    exact .scalar rfl (Binary64.isExact_of_compareInt? hcompare).isSome_integerText?
  · rw [hk]
    exact .scalar rfl hx

/-- What is read of a bound is a bound, and the same number unless the bound is an integer that
rounding changes. -/
structure BoundRead (v : Value) (a : Option Number) : Prop where
  isJson : (ofNumber? a).IsJson
  fits : Shape.optional Shape.measure (ofNumber? a) = []
  back : (ofNumber? a).equals v = true ↔ ∀ n, v = .int n → IsExact n

theorem boundRead_whole (hx : x.isFinite = true)
    (back : (Value.ofNumber x.whole).equals v = true ↔ ∀ n, v = .int n → IsExact n) :
    BoundRead v (some x.whole) where
  isJson := isJson_whole hx
  fits := Shape.optional_eq_nil_iff.2 (.inr (measure_whole x))
  back := back

/-- What a box shows of a bound is read. -/
theorem exists_bound (hv : v.IsJson) (hmeasure : Shape.optional Shape.measure v = []) :
    ∃ s a, numberText v = .ok s ∧ parseNumber (.text s) = .ok a ∧ BoundRead v a := by
  rcases Shape.optional_eq_nil_iff.1 hmeasure with rfl | hmeasure
  · refine ⟨"", none, rfl, rfl, .scalar rfl trivial, rfl, iff_of_true ?_ fun k hk => ?_⟩
    · simp [ofNumber?, Value.equals]
    · cases hk
  have hnumber := Shape.requires_eq_nil_iff.1 hmeasure
  cases v with
  | int n =>
      obtain ⟨x, hx⟩ := Option.isSome_iff_exists.1 hnumber
      have hsome : (integerText? n).isSome = true := hv.node_of_scalar rfl
      obtain ⟨s, hs⟩ := Option.isSome_iff_exists.1 hsome
      have hback : (Value.ofNumber x.whole).equals (.int n) = true ↔
          ∀ k, Value.int n = .int k → IsExact k := by
        refine (whole_equals_int_iff hx).trans ⟨?_, fun h => h n rfl⟩
        rintro h _ ⟨⟩
        exact h
      exact ⟨s, _, (numberText_int n).trans (plain_integer hs), parseNumber_integer hs hx,
        boundRead_whole (Binary64.eq_ofDyadic_of_ofInt? hx).2 hback⟩
  | float x =>
      have hx : x.isFinite = true := hv.node_of_scalar rfl
      obtain ⟨s, hs, hread⟩ : ∃ s, numberText (.float x) = .ok s ∧
          parseNumber (.text s) = .ok (some x.whole) := by
        rw [numberText_float]
        rcases x.whole_cases with ⟨k, hk, hcompare⟩ | ⟨hk, -⟩
        · have hexact := Binary64.isExact_of_compareInt? hcompare
          obtain ⟨s, hs⟩ := Option.isSome_iff_exists.1 hexact.isSome_integerText?
          obtain ⟨y, hy, hcompare'⟩ := hexact
          rw [hk]
          refine ⟨s, plain_integer hs, ?_⟩
          rw [parseNumber_integer hs hy, Binary64.whole_of_compareInt? hcompare']
        · rw [hk]
          exact ⟨_, rfl, hk ▸ parseNumber_float hx⟩
      have hback : (Value.ofNumber x.whole).equals (.float x) = true ↔
          ∀ k, Value.float x = .int k → IsExact k :=
        iff_of_true (whole_equals_float hx) fun k hk => by cases hk
      exact ⟨s, _, hs, hread, boundRead_whole hx hback⟩
  | _ => cases hnumber

end Inspector

end FormDesigner
