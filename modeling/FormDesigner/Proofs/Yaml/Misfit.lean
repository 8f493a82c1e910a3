import Mathlib.Tactic.SplitIfs
import FormDesigner.Proofs.Yaml.Assembling
import FormDesigner.Yaml.Reader

/-!
# Scalars that do not fit their tags

Most texts that do not fit the tag of their node are malformed or faults of values. A few make the
construction of the value fail in another way. Without tags in the text, the only ones of these are
sexagesimal numbers that are too large.

So a text that is no markup is told apart from markup whose content comes to no value, and the
faults of content are few.
-/

namespace FormDesigner

namespace Yaml

open Result

/-- A fault that readers of documents count on. -/
def IsRefused (f : Failure) : Prop := ∃ k m, f = .fault k m ∧ (k = .markup ∨ k.isValue = true)

/-- How a text fails that does not fit a tag, in ways that readers of documents do not count on. -/
inductive Misfit : Tag → String → Failure → Prop
  | noDigits {tag : Tag} {t : String} (number : tag = .int ∨ tag = .float)
      (empty : (Text.splitSign (withoutLines t.toList)).2 = []) :
      Misfit tag t (.fault .index "string index out of range")
  | noTruth {t : String} (other : truthTexts.lookup (Text.lower t) = none) :
      Misfit .bool t .missingEntry
  | noTime {t : String} (other : stamp? (dropLastBreak t.toList) = none) :
      Misfit .timestamp t .noMember
  | tooLarge {t : String} (sexagesimal : ':' ∈ (withoutLines t.toList).map Text.lowerChar) :
      Misfit .float t (.fault .overflow "")

/-- Somewhere in a node, a text is asked for a value of a tag. -/
inductive Node.Asks : Node → Tag → String → Prop
  | scalar {tag : Tag} {t : String} : Asks (.scalar tag t) tag t
  | default {tag : Tag} {es : List (Node × Node)} {t : String} (found : defaultText es = .ok t) :
      Asks (.map tag es) tag t
  | item {tag u : Tag} {ns : List Node} {n : Node} {t : String} (mem : n ∈ ns)
      (asks : n.Asks u t) : Asks (.list tag ns) u t
  | key {tag u : Tag} {es : List (Node × Node)} {e : Node × Node} {t : String} (mem : e ∈ es)
      (asks : e.1.Asks u t) : Asks (.map tag es) u t
  | value {tag u : Tag} {es : List (Node × Node)} {e : Node × Node} {t : String} (mem : e ∈ es)
      (asks : e.2.Asks u t) : Asks (.map tag es) u t

theorem isRefused_malformed : IsRefused malformed := ⟨.markup, "", rfl, .inl rfl⟩

theorem isRefused_value (m : String) : IsRefused (.fault .value m) := ⟨.value, m, rfl, .inr rfl⟩

variable {t : String}

/-! ### Scalars -/

/-- Reading a text for a value of a tag fails in a way that is counted on, or by a misfit. -/
abbrev ReadsAs {α : Type} (tag : Tag) (t : String) (x : Except Failure α) : Prop :=
  FailsOnly (fun f => IsRefused f ∨ Misfit tag t f) x

theorem integerIn_failsOnly (base : Nat) (cs : List Char) :
    FailsOnly IsRefused (integerIn base cs) := by
  unfold integerIn
  dsimp only
  split
  · exact failsOnly_ok _
  · exact failsOnly_error (isRefused_value _)

theorem decimalInteger_failsOnly (cs : List Char) : FailsOnly IsRefused (decimalInteger cs) := by
  unfold decimalInteger
  dsimp only
  split
  · exact failsOnly_ok _
  · exact failsOnly_error (isRefused_value _)
  · exact failsOnly_error (isRefused_value _)

theorem signed_eq_ok {cs : List Char} {r : Bool × List Char} (h : signed cs = .ok r) :
    r = Text.splitSign cs := by
  unfold signed at h
  split at h
  · cases h
  · exact (Except.ok.inj h).symm

theorem signed_failsOnly {cs : List Char} :
    FailsOnly (fun f => cs = [] ∧ f = .fault .index "string index out of range") (signed cs) := by
  unfold signed
  split
  · next hempty => exact failsOnly_error ⟨List.isEmpty_iff.1 hempty, rfl⟩
  · exact failsOnly_ok _

theorem integer_readsAs (t : String) : ReadsAs .int t (integer t) := by
  have counted : ∀ {α : Type} {x : Except Failure α}, FailsOnly IsRefused x → ReadsAs .int t x :=
    fun hx => hx.mono fun _ h => .inl h
  unfold integer
  refine (signed_failsOnly.mono ?_).bind fun r hr => ?_
  · rintro f ⟨hnil, rfl⟩
    exact .inr (.noDigits (.inl rfl) (by rw [hnil]; rfl))
  · have hsplit := signed_eq_ok hr
    obtain ⟨negative, cs⟩ := r
    dsimp only
    split
    · exact failsOnly_ok _
    · exact (counted (integerIn_failsOnly _ _)).bind fun _ _ => failsOnly_ok _
    · exact (counted (integerIn_failsOnly _ _)).bind fun _ _ => failsOnly_ok _
    · exact (counted (integerIn_failsOnly _ _)).bind fun _ _ => failsOnly_ok _
    · exact failsOnly_error (.inr (.noDigits (.inl rfl) (hsplit ▸ rfl)))
    · split
      · exact (FailsOnly.mapM fun _ _ => counted (decimalInteger_failsOnly _)).bind fun _ _ =>
          failsOnly_ok _
      · exact (counted (decimalInteger_failsOnly _)).bind fun _ _ => failsOnly_ok _

theorem floatText_failsOnly (cs : List Char) : FailsOnly IsRefused (floatText cs) := by
  unfold floatText
  dsimp only
  split
  · exact failsOnly_ok _
  · exact failsOnly_error (isRefused_value _)

theorem splitSign_subset (cs : List Char) : (Text.splitSign cs).2 ⊆ cs := by
  unfold Text.splitSign
  split
  · exact List.subset_cons_self _ _
  · exact List.subset_cons_self _ _
  · exact List.Subset.refl _

theorem float_readsAs (t : String) : ReadsAs .float t (float t) := by
  have counted : ∀ {α : Type} {x : Except Failure α}, FailsOnly IsRefused x → ReadsAs .float t x :=
    fun hx => hx.mono fun _ h => .inl h
  unfold float
  refine (signed_failsOnly.mono ?_).bind fun r hr => ?_
  · rintro f ⟨hnil, rfl⟩
    refine .inr (.noDigits (.inr rfl) ?_)
    rw [List.map_eq_nil_iff.1 hnil]
    rfl
  · obtain rfl := signed_eq_ok hr
    dsimp only
    split
    · exact failsOnly_ok _
    split
    · exact failsOnly_ok _
    split
    · next hcolon =>
      refine (FailsOnly.mapM fun _ _ => counted (floatText_failsOnly _)).bind fun ds _ => ?_
      split
      · exact failsOnly_ok _
      · exact failsOnly_error (.inr (.tooLarge (splitSign_subset _ (by simpa using hcolon))))
    · exact (counted (floatText_failsOnly _)).bind fun _ _ => failsOnly_ok _

theorem checkedDate_failsOnly (year month day : Nat) :
    FailsOnly IsRefused (checkedDate year month day) := by
  unfold checkedDate
  split
  · exact failsOnly_ok _
  · exact failsOnly_error (isRefused_value _)

theorem checkedPart_failsOnly (name : String) (limit n : Nat) :
    FailsOnly IsRefused (checkedPart name limit n) := by
  unfold checkedPart
  split
  · exact failsOnly_ok _
  · exact failsOnly_error (isRefused_value _)

theorem checkedOffset_failsOnly (minutes : Int) : FailsOnly IsRefused (checkedOffset minutes) := by
  unfold checkedOffset
  dsimp only
  split
  · exact failsOnly_ok _
  · exact failsOnly_error (isRefused_value _)

theorem timestamp_readsAs (t : String) : ReadsAs .timestamp t (timestamp t) := by
  have counted : ∀ {α : Type} {x : Except Failure α},
      FailsOnly IsRefused x → ReadsAs .timestamp t x := fun hx => hx.mono fun _ h => .inl h
  unfold timestamp
  split
  · next h => exact failsOnly_error (.inr (.noTime h))
  · next u _ =>
    split
    · exact (counted (checkedDate_failsOnly _ _ _)).bind fun _ _ => failsOnly_ok _
    · have hoffset : ReadsAs .timestamp t (u.offset.mapM checkedOffset) := by
        cases u.offset with
        | none => exact failsOnly_ok _
        | some minutes => exact (counted (checkedOffset_failsOnly _)).bind fun _ _ => failsOnly_ok _
      exact hoffset.bind fun _ _ => (counted (checkedDate_failsOnly _ _ _)).bind fun _ _ =>
        (counted (checkedPart_failsOnly _ _ _)).bind fun _ _ =>
        (counted (checkedPart_failsOnly _ _ _)).bind fun _ _ =>
        (counted (checkedPart_failsOnly _ _ _)).bind fun _ _ => failsOnly_ok _

theorem truth_readsAs (t : String) : ReadsAs .bool t (truth t) := by
  unfold truth
  split
  · exact failsOnly_ok _
  · next h => exact failsOnly_error (.inr (.noTruth h))

theorem octets_failsOnly (t : String) : FailsOnly (· = malformed) (octets t) := by
  unfold octets
  split
  · split
    · exact failsOnly_ok _
    · exact failsOnly_error rfl
  · exact failsOnly_error rfl

theorem scalar_readsAs (tag : Tag) (t : String) : ReadsAs tag t (construct (.scalar tag t)) := by
  unfold construct
  split
  · exact failsOnly_ok _
  · exact truth_readsAs t
  · exact .map (integer_readsAs t)
  · exact float_readsAs t
  · exact (octets_failsOnly t).mono fun _ h => .inl (h ▸ isRefused_malformed)
  · exact timestamp_readsAs t
  · exact failsOnly_ok _
  · exact failsOnly_error (.inl isRefused_malformed)

/-! ### Nodes -/

/-- The construction of a node fails because the node is malformed, or where it asks for a value of a
text. -/
def Node.Stops (n : Node) (f : Failure) : Prop :=
  f = malformed ∨ ∃ tag t, n.Asks tag t ∧ construct (.scalar tag t) = .error f

theorem Node.Stops.of_item {tag : Tag} {ns : List Node} {f : Failure}
    (h : ∃ n ∈ ns, n.Stops f) : (Node.list tag ns).Stops f := by
  obtain ⟨n, hn, h⟩ := h
  exact h.imp_right fun ⟨u, t, hasks, hf⟩ => ⟨u, t, .item hn hasks, hf⟩

theorem Node.Stops.of_entry {tag : Tag} {es : List (Node × Node)} {f : Failure}
    (h : ∃ e ∈ es, e.1.Stops f ∨ e.2.Stops f) : (Node.map tag es).Stops f := by
  obtain ⟨e, he, h | h⟩ := h
  · exact h.imp_right fun ⟨u, t, hasks, hf⟩ => ⟨u, t, .key he hasks, hf⟩
  · exact h.imp_right fun ⟨u, t, hasks, hf⟩ => ⟨u, t, .value he hasks, hf⟩

/-- What stops the items after the first one stops the list. -/
theorem exists_mem_cons {α : Type} {P : α → Prop} {x : α} {xs : List α} (h : ∃ y ∈ xs, P y) :
    ∃ y ∈ x :: xs, P y := by
  obtain ⟨y, hy, h⟩ := h
  exact ⟨y, List.mem_cons_of_mem _ hy, h⟩

mutual

theorem scalarText_failsOnly : ∀ n, FailsOnly (· = malformed) (scalarText n)
  | .scalar _ s => failsOnly_ok s
  | .list .. => failsOnly_error rfl
  | .map _ es => defaultText_failsOnly es

theorem defaultText_failsOnly : ∀ es, FailsOnly (· = malformed) (defaultText es)
  | [] => failsOnly_error rfl
  | (k, v) :: es => by
      unfold defaultText
      split
      · exact scalarText_failsOnly v
      · exact defaultText_failsOnly es

end

/-- A mapping that is asked for its default value. -/
theorem Node.Stops.of_default {tag : Tag} {es : List (Node × Node)} (found : defaultText es = .ok t) :
    FailsOnly (Node.map tag es).Stops (construct (.scalar tag t)) := fun _ hf =>
  .inr ⟨tag, t, .default found, hf⟩

mutual

theorem construct_failsOnly : ∀ n, FailsOnly n.Stops (construct n)
  | .scalar tag s => fun _ hf => .inr ⟨tag, s, .scalar, hf⟩
  | .list tag ns => by
      have pairs : FailsOnly (Node.list tag ns).Stops (constructPairs ns) :=
        (constructPairs_failsOnly ns).mono fun _ => .of_item
      unfold construct
      split
      · exact ((constructAll_failsOnly ns).mono fun _ => .of_item).bind fun _ _ => failsOnly_ok _
      · exact pairs.bind fun _ _ => failsOnly_ok _
      · exact pairs.bind fun _ _ => failsOnly_ok _
      · exact failsOnly_error (.inl rfl)
  | .map tag es => by
      have own : FailsOnly (Node.map tag es).Stops (entries es) :=
        (entries_failsOnly es).mono fun _ => .of_entry
      have found : FailsOnly (Node.map tag es).Stops (defaultText es) :=
        (defaultText_failsOnly es).mono fun _ h => .inl h
      -- Asked for its default value, the mapping is constructed as a scalar with that text is.
      have default : ∀ s, defaultText es = .ok s →
          FailsOnly (Node.map tag es).Stops (construct (.scalar tag s)) :=
        fun _ => Node.Stops.of_default
      unfold construct at default ⊢
      split
      · exact own.bind fun _ _ => failsOnly_ok _
      · exact own.bind fun _ _ => failsOnly_ok _
      · exact found.bind fun _ _ => failsOnly_ok _
      · exact found.bind default
      · refine found.bind fun s hs => ?_
        rw [bind_pure_comp]
        exact default s hs
      · exact found.bind default
      · exact found.bind default
      · exact found.bind fun _ _ => failsOnly_ok _
      · exact failsOnly_error (.inl rfl)

theorem constructAll_failsOnly : ∀ ns,
    FailsOnly (fun f => ∃ n ∈ ns, n.Stops f) (constructAll ns)
  | [] => by
      unfold constructAll
      exact failsOnly_ok _
  | n :: ns => by
      unfold constructAll
      refine ((construct_failsOnly n).mono fun _ h => ⟨n, List.mem_cons_self, h⟩).bind fun _ _ => ?_
      exact ((constructAll_failsOnly ns).mono fun _ => exists_mem_cons).bind fun _ _ =>
        failsOnly_ok _

theorem entries_failsOnly (es : List (Node × Node)) :
    FailsOnly (fun f => ∃ e ∈ es, e.1.Stops f ∨ e.2.Stops f) (entries es) := by
  unfold entries
  exact (splitEntries_failsOnly es).bind fun _ _ => failsOnly_ok _

theorem splitEntries_failsOnly : ∀ es,
    FailsOnly (fun f => ∃ e ∈ es, e.1.Stops f ∨ e.2.Stops f) (splitEntries es)
  | [] => by
      unfold splitEntries
      exact failsOnly_ok _
  | (k, v) :: es => by
      have rest := (splitEntries_failsOnly es).mono fun _ => exists_mem_cons (x := (k, v))
      have here : ∀ f, k.Stops f ∨ v.Stops f → ∃ e ∈ (k, v) :: es, e.1.Stops f ∨ e.2.Stops f :=
        fun f h => ⟨(k, v), List.mem_cons_self, h⟩
      unfold splitEntries
      split
      · exact ((mergedFrom_failsOnly v).mono fun f h => here f (.inr h)).bind fun _ _ =>
          rest.bind fun _ _ => failsOnly_ok _
      · exact ((constructKey_failsOnly k).mono fun f h => here f (.inl h)).bind fun _ _ =>
          ((construct_failsOnly v).mono fun f h => here f (.inr h)).bind fun _ _ =>
            rest.bind fun _ _ => failsOnly_ok _

theorem constructKey_failsOnly (k : Node) : FailsOnly k.Stops (constructKey k) := by
  unfold constructKey
  split
  · exact failsOnly_ok _
  · refine (construct_failsOnly k).bind fun _ _ => ?_
    split
    · exact failsOnly_ok _
    · exact failsOnly_error (.inl rfl)

theorem mergedFrom_failsOnly : ∀ n, FailsOnly n.Stops (mergedFrom n)
  | .map _ es => by
      unfold mergedFrom
      exact (entries_failsOnly es).mono fun _ => .of_entry
  | .list _ ns => by
      unfold mergedFrom
      exact ((mergedEach_failsOnly ns).mono fun _ => .of_item).bind fun _ _ => failsOnly_ok _
  | .scalar _ _ => by
      unfold mergedFrom
      exact failsOnly_error (.inl rfl)

theorem mergedEach_failsOnly : ∀ ns, FailsOnly (fun f => ∃ n ∈ ns, n.Stops f) (mergedEach ns)
  | [] => by
      unfold mergedEach
      exact failsOnly_ok _
  | .map tag es :: ns => by
      unfold mergedEach
      refine ((entries_failsOnly es).mono fun f h => ?_).bind fun _ _ =>
        ((mergedEach_failsOnly ns).mono fun _ => exists_mem_cons).bind fun _ _ => failsOnly_ok _
      exact ⟨.map tag es, List.mem_cons_self, .of_entry h⟩
  | .scalar _ _ :: _ | .list _ _ :: _ => by
      unfold mergedEach
      exact failsOnly_error ⟨_, List.mem_cons_self, .inl rfl⟩

theorem constructPairs_failsOnly : ∀ ns,
    FailsOnly (fun f => ∃ n ∈ ns, n.Stops f) (constructPairs ns)
  | [] => by
      unfold constructPairs
      exact failsOnly_ok _
  | .map tag [(k, v)] :: ns => by
      have here : ∀ f, k.Stops f ∨ v.Stops f → ∃ n ∈ Node.map tag [(k, v)] :: ns, n.Stops f :=
        fun f h => ⟨_, List.mem_cons_self, .of_entry ⟨(k, v), List.mem_singleton_self _, h⟩⟩
      unfold constructPairs
      exact ((construct_failsOnly k).mono fun f h => here f (.inl h)).bind fun _ _ =>
        ((construct_failsOnly v).mono fun f h => here f (.inr h)).bind fun _ _ =>
          ((constructPairs_failsOnly ns).mono fun _ => exists_mem_cons).bind fun _ _ =>
            failsOnly_ok _
  | .map _ [] :: _ | .map _ (_ :: _ :: _) :: _ | .scalar _ _ :: _ | .list _ _ :: _ => by
      unfold constructPairs
      exact failsOnly_error ⟨_, List.mem_cons_self, .inl rfl⟩

end

/-! ### Texts without tags -/

/-- What follows the sign of a number begins with a character that counts. -/
def StartsNumber (cs : List Char) : Prop := ∃ d ds, dropSign cs = d :: ds ∧ d ≠ '_'

theorem StartsNumber.splitSign_ne_nil {cs : List Char} (h : StartsNumber cs) :
    (Text.splitSign (withoutLines cs)).2 ≠ [] := by
  obtain ⟨d, ds, hd, hline⟩ := h
  have hkeep : ∀ {c : Char} {rest : List Char}, c ≠ '_' →
      withoutLines (c :: rest) = c :: withoutLines rest := fun hc =>
    List.filter_cons_of_pos (by simpa using hc)
  unfold dropSign at hd
  split at hd
  · rw [hkeep (by decide), hd, hkeep hline]
    exact List.cons_ne_nil _ _
  · rw [hkeep (by decide), hd, hkeep hline]
    exact List.cons_ne_nil _ _
  · next hplus hminus =>
    rw [hd, hkeep hline]
    unfold Text.splitSign
    split
    · next heq =>
      obtain ⟨rfl, -⟩ := List.cons.inj heq
      exact absurd hd (hminus ds)
    · next heq =>
      obtain ⟨rfl, -⟩ := List.cons.inj heq
      exact absurd hd (hplus ds)
    · exact List.cons_ne_nil _ _

theorem isDigits_head {cs : List Char} (h : isDigits cs = true) : ∃ d ds, cs = d :: ds ∧ d ≠ '_' := by
  cases cs with
  | nil => cases h
  | cons d ds =>
      refine ⟨d, ds, rfl, ?_⟩
      rintro rfl
      cases h

/-- The first piece begins as the whole. -/
theorem pieces_head {e d : Char} {cs p ds : List Char} {ps : List (List Char)}
    (h : pieces e cs = p :: ps) (hp : p = d :: ds) : ∃ rest, cs = d :: rest := by
  subst hp
  cases cs with
  | nil => cases h
  | cons c rest =>
      rw [pieces] at h
      split at h
      · cases h
      · split at h
        · obtain ⟨rfl, -⟩ := List.cons.inj (List.cons.inj h).1
          exact ⟨rest, rfl⟩
        · obtain ⟨rfl, -⟩ := List.cons.inj (List.cons.inj h).1
          exact ⟨rest, rfl⟩

theorem startsNumber_of_isInteger {cs : List Char} (h : isInteger cs = true) : StartsNumber cs := by
  unfold isInteger at h
  unfold StartsNumber
  split at h
  · next heq => exact ⟨_, _, heq, by decide⟩
  · next heq => exact ⟨_, _, heq, by decide⟩
  · next heq => exact ⟨_, _, heq, by decide⟩
  · next heq => exact ⟨_, _, heq, by decide⟩
  · split at h
    · cases h
    · next p ps heq =>
      simp only [Bool.and_eq_true] at h
      obtain ⟨d, ds, hp, hd⟩ := isDigits_head h.1.1
      obtain ⟨rest, hrest⟩ := pieces_head heq hp
      exact ⟨d, rest, hrest, hd⟩

theorem startsNumber_of_isFloat {cs : List Char} (h : isFloat cs = true) : StartsNumber cs := by
  have hhead : ∀ {w ds : List Char} {d : Char}, w <+: dropSign cs → w = d :: ds → d ≠ '_' →
      StartsNumber cs := by
    rintro w ds d ⟨rest, hrest⟩ rfl hd
    exact ⟨d, _, hrest.symm, hd⟩
  unfold isFloat at h
  simp only [Bool.or_eq_true] at h
  obtain (((h | h) | h) | h) | h := h
  · unfold isPointed at h
    dsimp only at h
    split at h
    · simp only [Bool.and_eq_true] at h
      obtain ⟨d, ds, hwhole, hd⟩ := isDigits_head h.1
      exact hhead (List.takeWhile_prefix _) hwhole hd
    · cases h
  · unfold isSexagesimal at h
    split at h
    · next whole fraction hpieces =>
      split at h
      · next p q ps hp =>
        simp only [Bool.and_eq_true] at h
        obtain ⟨d, ds, hdigits, hd⟩ := isDigits_head h.1.1
        obtain ⟨rest, hrest⟩ := pieces_head hp hdigits
        obtain ⟨rest', hrest'⟩ := pieces_head hpieces hrest
        exact ⟨d, rest', hrest', hd⟩
      · cases h
    · cases h
  · have hwords : ∀ w ∈ infinities, w.toList.head? = some '.' := by decide
    obtain ⟨ds, hds⟩ := List.head?_eq_some_iff.1 (hwords _ (List.contains_iff_mem.1 h))
    exact ⟨'.', ds, by rwa [String.toList_ofList] at hds, by decide⟩
  · have hwords : ∀ w ∈ undefinedNumbers, (dropSign w.toList).head? = some '.' := by decide
    obtain ⟨ds, hds⟩ := List.head?_eq_some_iff.1 (hwords _ (List.contains_iff_mem.1 h))
    exact ⟨'.', ds, by rwa [String.toList_ofList] at hds, by decide⟩
  · split at h
    · exact ⟨_, _, rfl, by decide⟩
    · cases h

theorem truth_of_isTruthText {s : String} (h : isTruthText s = true) :
    truthTexts.lookup (Text.lower s) ≠ none := by
  unfold isTruthText at h
  rw [List.any_eq_true] at h
  obtain ⟨⟨name, b⟩, hname, h⟩ := h
  have hforms : s ∈ [name, name.capitalize, name.toUpper] := by
    simpa [or_assoc] using h
  have hlookup : ∀ e ∈ truthTexts, ∀ s ∈ [e.1, e.1.capitalize, e.1.toUpper],
      (truthTexts.lookup (Text.lower s)).isSome = true := by
    decide +kernel
  exact fun hnone => by simpa [hnone] using hlookup _ hname s hforms

/-- The form that a scalar has without quotes decides its tag. -/
theorem form_of_plainTag {times : Bool} {tag : Tag} (h : tag = plainTag times t)
    (hbreak : t.toList.getLast? ≠ some '\n') :
    (tag = .bool → isTruthText t = true) ∧ (tag = .float → isFloat t.toList = true) ∧
      (tag = .int → isInteger t.toList = true) ∧
      (tag = .timestamp → times = true ∧ isTimestamp t.toList = true) := by
  have hcs : dropLastBreak t.toList = t.toList := by
    unfold dropLastBreak
    rw [if_neg (by simpa using hbreak)]
  unfold plainTag at h
  rw [hcs] at h
  dsimp only at h
  rw [String.ofList_toList] at h
  subst h
  split_ifs <;> simp_all

/-- Without a tag of its own, a scalar is read as what its text fits. -/
theorem Misfit.of_isOwnTag {times : Bool} {tag : Tag} {f : Failure} (own : IsOwnTag times tag t)
    (h : Misfit tag t f) : tag = .float ∧ f = .fault .overflow "" := by
  rcases own with rfl | ⟨htag, hbreak⟩
  · cases h with
    | noDigits number => exact absurd number (by simp)
  · obtain ⟨hbool, hfloat, hint, htime⟩ := form_of_plainTag htag hbreak
    cases h with
    | noDigits number empty =>
        have hnumber : StartsNumber t.toList :=
          number.elim (fun h => startsNumber_of_isInteger (hint h)) fun h =>
            startsNumber_of_isFloat (hfloat h)
        exact absurd empty hnumber.splitSign_ne_nil
    | noTruth other => exact absurd other (truth_of_isTruthText (hbool rfl))
    | noTime other =>
        have hform := (htime rfl).2
        unfold dropLastBreak at other
        rw [if_neg (by simpa using hbreak)] at other
        rw [isTimestamp, other] at hform
        cases hform
    | tooLarge => exact ⟨rfl, rfl⟩

/-- In a text without exclamation marks, nothing is asked for but what has its own tag. -/
theorem Node.IsOf.asks {times : Bool} {text : List Char} {n : Node} {tag : Tag}
    (h : n.IsOf times text) (asks : n.Asks tag t) :
    '!' ∈ text ∨ tag = .map ∨ IsOwnTag times tag t := by
  induction asks with
  | scalar =>
      cases h with
      | scalar own => exact own.imp_right .inr
  | default =>
      cases h with
      | map own => exact own.imp_right .inl
  | item mem _ ih =>
      cases h with
      | list _ items => exact ih (items _ mem)
  | key mem _ ih =>
      cases h with
      | map _ keys _ => exact ih (keys _ mem)
  | value mem _ ih =>
      cases h with
      | map _ _ values => exact ih (values _ mem)

/-! ### Faults of content

Reading a text fails for its notation, or for something that it says in the notation: a number, time
or character that there is none of, or a tag that does not fit what it stands before. Whoever counts
on faults of notation alone is stopped by a fault of content. -/

variable {times : Bool} {s : String} {f : Failure}

end Yaml

end FormDesigner
