import FormDesigner.Proofs.Value.Entries

/-!
# Entries by their kinds of keys

Texts are the same as texts only, so whatever is stored or dropped under a text leaves the entries
under other keys alone, and the other way round. A run of such steps can be followed on each kind of
entries for itself.
-/

namespace FormDesigner

namespace Value

/-- A kind of keys that has with a key all keys that are the same. -/
def IsKind (P : Value → Bool) : Prop := ∀ k l : Value, k.same l = true → P k = P l

def isText (k : Value) : Bool := k.asText?.isSome

theorem isText_iff {k : Value} : k.isText = true ↔ ∃ n, k = text n := by
  rw [isText, Option.isSome_iff_exists]
  exact exists_congr fun n => asText?_eq_some_iff

theorem isKind_isText : IsKind isText := by
  intro k l h
  rw [Bool.eq_iff_iff, isText_iff, isText_iff]
  constructor
  · rintro ⟨n, rfl⟩
    exact ⟨n, same_text_iff.1 h⟩
  · rintro ⟨n, rfl⟩
    exact ⟨n, same_text_right_iff.1 h⟩

theorem IsKind.not {P : Value → Bool} (hP : IsKind P) : IsKind fun k => !P k := fun k l h =>
  congrArg _ (hP k l h)

end Value

namespace Entries

open Value (text IsKind isText)

variable {es fs patch : Entries} {P : Value → Bool} {k v : Value} {n : String}

/-- The entries under the keys of a kind. -/
def keyed (P : Value → Bool) (es : Entries) : Entries := es.filter fun e => P e.1

/-- The entries under keys that are no texts. -/
def strays (es : Entries) : Entries := es.keyed fun k => !k.isText

theorem strays_eq_nil_iff : strays es = [] ↔ ∀ e ∈ es, ∃ n, e.1 = text n := by
  rw [strays, keyed, List.filter_eq_nil_iff]
  refine forall₂_congr fun e _ => ?_
  rw [Bool.not_eq_true', Bool.not_eq_false, Value.isText_iff]

theorem keyed_isText_of_strays (h : strays es = []) : es.keyed isText = es :=
  List.filter_eq_self.2 fun e he => Value.isText_iff.2 (strays_eq_nil_iff.1 h e he)

/-! ### Looking up, storing and dropping -/

private theorem same_of_kind (hP : IsKind P) (hk : P k = true) {l : Value}
    (h : k.same l = true) : P l = true := (hP k l h).symm.trans hk

theorem get?_keyed (hP : IsKind P) (hk : P k = true) : get? (es.keyed P) k = get? es k := by
  have hboth : ∀ e : Value × Value, (P e.1 = true ∧ k.same e.1 = true) ↔ k.same e.1 = true :=
    fun e => and_iff_right_of_imp (same_of_kind hP hk)
  rw [get?, keyed, List.find?_filter, get?]
  simp only [hboth, Bool.decide_eq_true]

theorem contains_keyed (hP : IsKind P) (hk : P k = true) :
    contains (es.keyed P) k = contains es k := by
  have hboth : ∀ e : Value × Value, (P e.1 && k.same e.1) = k.same e.1 := fun e =>
    Bool.and_eq_right_iff_imp.2 (same_of_kind hP hk)
  rw [contains, keyed, List.any_filter, contains]
  simp only [hboth]

private theorem keyed_map (f : Value × Value → Value) :
    keyed P (es.map fun e => (e.1, f e)) = (es.keyed P).map fun e => (e.1, f e) := by
  rw [keyed, List.filter_map]
  rfl

private theorem keyed_append : keyed P (es ++ [(k, v)]) =
    if P k then es.keyed P ++ [(k, v)] else es.keyed P := by
  rw [keyed, List.filter_append, List.filter_singleton]
  cases P k with
  | true => rfl
  | false => exact List.append_nil _

theorem keyed_insert (hP : IsKind P) :
    (insert es k v).keyed P = if P k then insert (es.keyed P) k v else es.keyed P := by
  rcases insert_cases es k v with ⟨hk, hi⟩ | ⟨hk, hi⟩
  · rw [hi, keyed_map]
    by_cases hPk : P k = true
    · rcases insert_cases (es.keyed P) k v with ⟨-, hj⟩ | ⟨hnot, -⟩
      · rw [if_pos hPk, hj]
      · rw [contains_keyed hP hPk, hk] at hnot
        cases hnot
    · rw [if_neg hPk]
      refine (List.map_congr_left fun e he => ?_).trans (List.map_id _)
      rw [if_neg fun hsame => hPk ((hP k e.1 hsame).trans (List.mem_filter.1 he).2)]
      rfl
  · rw [hi, keyed_append]
    by_cases hPk : P k = true
    · rw [if_pos hPk, if_pos hPk, insert, contains_keyed hP hPk, hk, if_neg Bool.false_ne_true]
    · rw [if_neg hPk, if_neg hPk]

theorem keyed_erase (hP : IsKind P) :
    (erase es k).keyed P = if P k then erase (es.keyed P) k else es.keyed P := by
  rw [keyed, erase, List.filter_comm]
  by_cases hPk : P k = true
  · rw [if_pos hPk]
    rfl
  · rw [if_neg hPk]
    refine List.filter_eq_self.2 fun e he => ?_
    rw [Bool.not_eq_true', Bool.eq_false_iff]
    exact fun hsame => hPk ((hP k e.1 hsame).trans (List.mem_filter.1 he).2)

/-! ### Runs of steps -/

/-- A step for each entry that does to the entries of a kind what it would do if there were no others,
and nothing if the key is of another kind. -/
def IsKeyed (op : Entries → Value × Value → Entries) : Prop :=
  ∀ (P : Value → Bool), IsKind P → ∀ es e,
    (op es e).keyed P = if P e.1 then op (es.keyed P) e else es.keyed P

theorem IsKeyed.foldl {op : Entries → Value × Value → Entries} (hop : IsKeyed op) (hP : IsKind P)
    (es patch : Entries) :
    (patch.foldl op es).keyed P = (patch.keyed P).foldl op (es.keyed P) := by
  induction patch generalizing es with
  | nil => rfl
  | cons e patch ih =>
      have hcons : keyed P (e :: patch) = if P e.1 then e :: keyed P patch else keyed P patch :=
        List.filter_cons
      rw [List.foldl_cons, ih, hop P hP, hcons]
      split
      · rfl
      · rfl

/-- A run leaves entries under texts as they are if its steps for texts do, and if it has left none
under other keys elsewhere. -/
theorem IsKeyed.foldl_eq_self {op : Entries → Value × Value → Entries} (hop : IsKeyed op)
    (hes : strays es = []) (hend : strays (patch.foldl op es) = []) (hfs : strays fs = [])
    (h : ∀ e ∈ patch.keyed isText, op fs e = fs) : patch.foldl op fs = fs := by
  have hstrays : strays (patch.foldl op fs) = [] := by
    rw [strays, hop.foldl Value.isKind_isText.not] at hend ⊢
    rw [strays] at hes hfs
    rw [hes] at hend
    rwa [hfs]
  have hfixed : ∀ steps : Entries, (∀ e ∈ steps, op fs e = fs) → steps.foldl op fs = fs := by
    intro steps hsteps
    induction steps with
    | nil => rfl
    | cons e steps ih =>
        obtain ⟨he, hrest⟩ := List.forall_mem_cons.1 hsteps
        rw [List.foldl_cons, he, ih hrest]
  rw [← keyed_isText_of_strays hstrays, hop.foldl Value.isKind_isText, keyed_isText_of_strays hfs]
  exact hfixed _ h

end Entries

end FormDesigner
