import FormDesigner.Expression.Evaluate
import FormDesigner.Proofs.Number.Remainder

/-!
# Values that have no text

A value has a text unless there is an integer in it with too many digits to be written out, be it
inside lists, tuples, sets and mappings. This is so for the text that a value has inside another one
and for the text that it is joined with. Floating-point numbers are far too small to be in the way:
neither the whole ones nor the integers near one have too many digits.
-/

namespace FormDesigner

/-! ### Integers in the range of floating point -/

theorem two_pow_lt_maxInteger : 2 ^ 1024 < Nat.pow 10 maxIntegerDigits := by
  decide +kernel

theorem isSome_integerText?_of_lt_two_pow {n : Int} (h : n.natAbs < 2 ^ 1024) :
    (integerText? n).isSome = true := by
  rw [integerText?, if_pos (h.trans two_pow_lt_maxInteger)]
  rfl

namespace Binary64

variable {x : Binary64} {n : Int}

/-- The integer part of a number, without its sign. The bound has a variable exponent, so that the
power is not written out on the way. -/
private theorem dyadic_lt {m limit : Nat} {e : Int} (canonical : CanonicalPair m e)
    (hlimit : 1024 ≤ limit) :
    (if 0 ≤ e then m * 2 ^ e.toNat else m / 2 ^ (-e).toNat) < 2 ^ limit := by
  obtain ⟨hm, -, he, -⟩ := canonical
  replace hm : m < 2 ^ 53 := hm.trans_eq (by norm_num)
  split
  · calc m * 2 ^ e.toNat
      _ < 2 ^ 53 * 2 ^ e.toNat := Nat.mul_lt_mul_of_pos_right hm (Nat.two_pow_pos _)
      _ = 2 ^ (53 + e.toNat) := (pow_add 2 53 _).symm
      _ ≤ 2 ^ limit := Nat.pow_le_pow_right two_pos (by omega)
  · calc m / 2 ^ (-e).toNat
      _ ≤ m := Nat.div_le_self _ _
      _ < 2 ^ 53 := hm
      _ ≤ 2 ^ limit := Nat.pow_le_pow_right two_pos (by omega)

theorem natAbs_truncate?_lt (h : x.truncate? = some n) : n.natAbs < 2 ^ 1024 := by
  cases x with
  | finite s m e canonical =>
      obtain rfl := Option.some.inj h
      refine (le_of_eq ?_).trans_lt (dyadic_lt canonical le_rfl)
      cases s
      · exact Int.natAbs_natCast _
      · exact (Int.natAbs_neg _).trans (Int.natAbs_natCast _)
  | _ => cases h

/-- Only integers below the greatest finite number have one near them. -/
theorem natAbs_lt_of_ofInt? (h : (ofInt? n).isSome = true) : n.natAbs < 2 ^ 1024 := by
  obtain ⟨x, hx⟩ := Option.isSome_iff_exists.1 h
  obtain ⟨rfl, hfinite⟩ := eq_ofDyadic_of_ofInt? hx
  by_contra hlarge
  have hvalue : (2 : ℚ) ^ (1024 : Int) ≤ (Ratio.ofDyadic n.natAbs 0).value := by
    have hcast : (Ratio.ofDyadic n.natAbs 0).value = n.natAbs := by
      simp [Ratio.ofDyadic, Ratio.value]
    rw [hcast]
    exact_mod_cast Nat.le_of_not_lt hlarge
  rw [ofDyadic, ofRatio_of_le_value _ Nat.one_pos hvalue] at hfinite
  cases hfinite

end Binary64

namespace Value

/-- There is an integer in a value that has too many digits to be written out. -/
inductive HoldsOverlong : Value → Prop
  | int {n : Int} (h : integerText? n = none) : HoldsOverlong (.int n)
  | list {xs : List Value} {x : Value} (mem : x ∈ xs) (h : HoldsOverlong x) :
      HoldsOverlong (.list xs)
  | tuple {xs : List Value} {x : Value} (mem : x ∈ xs) (h : HoldsOverlong x) :
      HoldsOverlong (.tuple xs)
  | set {xs : List Value} {x : Value} (mem : x ∈ xs) (h : HoldsOverlong x) :
      HoldsOverlong (.set xs)
  | key {es : Entries} {e : Value × Value} (mem : e ∈ es) (h : HoldsOverlong e.1) :
      HoldsOverlong (.map es)
  | value {es : Entries} {e : Value × Value} (mem : e ∈ es) (h : HoldsOverlong e.2) :
      HoldsOverlong (.map es)

variable {xs : List Value} {es : Entries} {n : Int}

theorem holdsOverlong_int_iff : (int n).HoldsOverlong ↔ integerText? n = none :=
  ⟨fun h => by cases h; assumption, .int⟩

theorem holdsOverlong_list_iff : (list xs).HoldsOverlong ↔ ∃ x ∈ xs, x.HoldsOverlong :=
  ⟨fun h => by cases h with | list mem h => exact ⟨_, mem, h⟩, fun ⟨_, mem, h⟩ => .list mem h⟩

theorem holdsOverlong_tuple_iff : (tuple xs).HoldsOverlong ↔ ∃ x ∈ xs, x.HoldsOverlong :=
  ⟨fun h => by cases h with | tuple mem h => exact ⟨_, mem, h⟩, fun ⟨_, mem, h⟩ => .tuple mem h⟩

theorem holdsOverlong_set_iff : (set xs).HoldsOverlong ↔ ∃ x ∈ xs, x.HoldsOverlong :=
  ⟨fun h => by cases h with | set mem h => exact ⟨_, mem, h⟩, fun ⟨_, mem, h⟩ => .set mem h⟩

theorem holdsOverlong_map_iff :
    (map es).HoldsOverlong ↔ ∃ e ∈ es, e.1.HoldsOverlong ∨ e.2.HoldsOverlong := by
  constructor
  · intro h
    cases h with
    | key mem h => exact ⟨_, mem, .inl h⟩
    | value mem h => exact ⟨_, mem, .inr h⟩
  · rintro ⟨e, mem, h | h⟩
    · exact .key mem h
    · exact .value mem h

section

variable {α β γ δ : Type} {x : Option α} {y : Option β} {z : Option γ}

private theorem lift_eq_none_iff {f : α → δ} : (do return f (← x)) = none ↔ x = none := by
  cases x <;> simp

private theorem lift₂_eq_none_iff {f : α → β → δ} :
    (do return f (← x) (← y)) = none ↔ x = none ∨ y = none := by
  cases x <;> cases y <;> simp

private theorem lift₃_eq_none_iff {f : α → β → γ → δ} :
    (do return f (← x) (← y) (← z)) = none ↔ x = none ∨ y = none ∨ z = none := by
  cases x <;> cases y <;> cases z <;> simp

end

mutual

/-- By induction on the value, with its items and entries. -/
theorem quoted?_eq_none_iff : (v : Value) → (v.quoted? = none ↔ v.HoldsOverlong)
  | .int n => by rw [quoted?, holdsOverlong_int_iff]
  | .list xs => by
      rw [quoted?, holdsOverlong_list_iff, ← quotedItems?_eq_none_iff xs]
      exact lift_eq_none_iff
  | .tuple xs => by
      rw [quoted?, holdsOverlong_tuple_iff, ← quotedItems?_eq_none_iff xs]
      exact lift_eq_none_iff
  | .set [] => by
      rw [quoted?, holdsOverlong_set_iff]
      simp
  | .set (x :: xs) => by
      rw [quoted?, holdsOverlong_set_iff, List.exists_mem_cons_iff, ← quoted?_eq_none_iff x,
        ← quotedItems?_eq_none_iff xs]
      exact lift₂_eq_none_iff
  | .map es => by
      rw [quoted?, holdsOverlong_map_iff, ← quotedEntries?_eq_none_iff es]
      exact lift_eq_none_iff
  | .null | .bool _ | .float _ | .text _ | .date _ | .moment _ | .bytes _ =>
      ⟨nofun, nofun⟩

theorem quotedItems?_eq_none_iff :
    (xs : List Value) → (quotedItems? xs = none ↔ ∃ x ∈ xs, x.HoldsOverlong)
  | [] => by simp [quotedItems?]
  | x :: xs => by
      rw [quotedItems?, List.exists_mem_cons_iff, ← quoted?_eq_none_iff x,
        ← quotedItems?_eq_none_iff xs]
      exact lift₂_eq_none_iff

theorem quotedEntries?_eq_none_iff : (es : List (Value × Value)) →
    (quotedEntries? es = none ↔ ∃ e ∈ es, e.1.HoldsOverlong ∨ e.2.HoldsOverlong)
  | [] => by simp [quotedEntries?]
  | (k, v) :: es => by
      rw [quotedEntries?, List.exists_mem_cons_iff, ← quoted?_eq_none_iff k,
        ← quoted?_eq_none_iff v, ← quotedEntries?_eq_none_iff es, or_assoc]
      exact lift₃_eq_none_iff

end

/-- Whole numbers are joined without a point, which is possible whatever their size. -/
theorem joinText?_float_ne_none (x : Binary64) : (float x).joinText? ≠ none := by
  cases x with
  | nan label =>
      intro hnone
      cases hnone
  | infinite negative =>
      intro hnone
      cases hnone
  | finite negative m e canonical =>
      rw [joinText?]
      · split
        · intro hnone
          obtain ⟨n, hn⟩ : ∃ n, (Binary64.finite negative m e canonical).truncate? = some n :=
            ⟨_, rfl⟩
          rw [hn, Option.bind_some] at hnone
          have htext := isSome_integerText?_of_lt_two_pow (Binary64.natAbs_truncate?_lt hn)
          rw [hnone] at htext
          cases htext
        · intro hnone
          cases hnone
      · intro n hn
        cases hn
      · intro x hx
        cases hx

mutual

/-- By induction on the value, with the items that are joined. -/
theorem joinText?_eq_none_iff : (v : Value) → (v.joinText? = none ↔ v.HoldsOverlong)
  | .list xs => by
      rw [joinText?, Option.map_eq_none_iff, joinTexts?_eq_none_iff xs, holdsOverlong_list_iff]
  | .tuple xs => by
      rw [joinText?, Option.map_eq_none_iff, joinTexts?_eq_none_iff xs, holdsOverlong_tuple_iff]
  | .float x => ⟨fun h => absurd h (joinText?_float_ne_none x), nofun⟩
  | .int n => quoted?_eq_none_iff (.int n)
  | .set xs => quoted?_eq_none_iff (.set xs)
  | .map es => quoted?_eq_none_iff (.map es)
  | .null | .bool _ | .text _ | .date _ | .moment _ | .bytes _ =>
      ⟨nofun, nofun⟩

theorem joinTexts?_eq_none_iff :
    (xs : List Value) → (joinTexts? xs = none ↔ ∃ x ∈ xs, x.HoldsOverlong)
  | [] => by simp [joinTexts?]
  | x :: xs => by
      rw [joinTexts?, List.exists_mem_cons_iff, ← joinText?_eq_none_iff x,
        ← joinTexts?_eq_none_iff xs]
      exact lift₂_eq_none_iff

end

end Value

end FormDesigner
