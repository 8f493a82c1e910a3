import FormDesigner.Failure
import FormDesigner.Proofs.Value.Entries

/-!
# Domains of values

A domain says which scalars and sequences a value may be made of and which keys its mappings may
have. Whatever the domain, no text is the key of two entries of one mapping. Text is in every
domain, so what is built from values of a domain by storing and dropping entries under text keys
stays in it.
-/

namespace FormDesigner

namespace Value

/-- Values without parts. -/
def isScalar : Value → Bool
  | .list _ | .tuple _ | .set _ | .map _ => false
  | _ => true

/-- What the values of a domain are made of. -/
structure Domain where
  /-- The scalars, tuples and sets that may occur. Lists may always occur. -/
  node : Value → Prop
  key : Value → Prop
  node_text : ∀ s, node (.text s)
  key_text : ∀ s, key (.text s)

/-- A value is made of what its domain allows, and no mapping in it names a text twice. -/
inductive IsIn (D : Domain) : Value → Prop
  | scalar {v : Value} (hv : v.isScalar = true) (node : D.node v) : IsIn D v
  | list {xs : List Value} (items : ∀ x ∈ xs, IsIn D x) : IsIn D (.list xs)
  | tuple {xs : List Value} (node : D.node (.tuple xs)) (items : ∀ x ∈ xs, IsIn D x) :
      IsIn D (.tuple xs)
  | set {xs : List Value} (node : D.node (.set xs)) (items : ∀ x ∈ xs, IsIn D x) : IsIn D (.set xs)
  | map {es : Entries} (names : (Entries.names es).Nodup) (keys : ∀ e ∈ es, D.key e.1)
      (values : ∀ e ∈ es, IsIn D e.2) : IsIn D (.map es)

namespace IsIn

variable {D E : Domain} {v w : Value} {es : Entries} {k : Value} {n : String}

theorem text (s : String) : IsIn D (.text s) := .scalar rfl (D.node_text s)

theorem list_iff {xs : List Value} : IsIn D (.list xs) ↔ ∀ x ∈ xs, IsIn D x := by
  refine ⟨fun h => ?_, .list⟩
  cases h with
  | scalar hv => simp [isScalar] at hv
  | list items => exact items

theorem tuple_items {xs : List Value} (h : IsIn D (.tuple xs)) : ∀ x ∈ xs, IsIn D x := by
  cases h with
  | scalar hv => simp [isScalar] at hv
  | tuple _ items => exact items

theorem set_items {xs : List Value} (h : IsIn D (.set xs)) : ∀ x ∈ xs, IsIn D x := by
  cases h with
  | scalar hv => simp [isScalar] at hv
  | set _ items => exact items

theorem map_iff : IsIn D (.map es) ↔
    (Entries.names es).Nodup ∧ (∀ e ∈ es, D.key e.1) ∧ ∀ e ∈ es, IsIn D e.2 := by
  refine ⟨fun h => ?_, fun ⟨names, keys, values⟩ => .map names keys values⟩
  cases h with
  | scalar hv => simp [isScalar] at hv
  | map names keys values => exact ⟨names, keys, values⟩

theorem names_nodup (h : IsIn D (.map es)) : (Entries.names es).Nodup := (map_iff.1 h).1

theorem node_of_scalar (h : IsIn D v) (hv : v.isScalar = true) : D.node v := by
  cases h with
  | scalar _ node => exact node
  | list | tuple | set | map => simp [isScalar] at hv

/-- A value stays in a domain that allows more. -/
theorem mono (h : IsIn D v) (hnode : ∀ w, D.node w → E.node w) (hkey : ∀ k, D.key k → E.key k) :
    IsIn E v := by
  induction h with
  | scalar hv node => exact .scalar hv (hnode _ node)
  | list _ ih => exact .list ih
  | tuple node _ ih => exact .tuple (hnode _ node) ih
  | set node _ ih => exact .set (hnode _ node) ih
  | map names keys _ ih => exact .map names (fun e he => hkey _ (keys e he)) ih

/-! ### Entries -/

theorem empty : IsIn D (.map []) := map_iff.2 ⟨List.nodup_nil, by simp, by simp⟩

theorem of_mem (h : IsIn D (.map es)) {e : Value × Value} (he : e ∈ es) : IsIn D e.2 :=
  (map_iff.1 h).2.2 e he

theorem insert (h : IsIn D (.map es)) (hk : D.key k) (hv : IsIn D v) :
    IsIn D (.map (Entries.insert es k v)) := by
  obtain ⟨names, keys, values⟩ := map_iff.1 h
  refine .map (Entries.names_insert_nodup names) (fun e he => ?_) (fun e he => ?_)
  · rcases Entries.mem_insert he with he | ⟨-, rfl | he⟩
    · exact keys e he
    · exact hk
    · obtain ⟨d, hd, hde⟩ := List.mem_map.1 he
      exact hde ▸ keys d hd
  · rcases Entries.mem_insert he with he | ⟨rfl, -⟩
    · exact values e he
    · exact hv

theorem erase (h : IsIn D (.map es)) : IsIn D (.map (Entries.erase es k)) := by
  obtain ⟨names, keys, values⟩ := map_iff.1 h
  have hsub : (Entries.erase es k).Sublist es := Entries.erase_sublist
  exact .map (names.sublist (Entries.names_sublist hsub))
    (fun e he => keys e (hsub.subset he)) (fun e he => values e (hsub.subset he))

theorem get? (h : IsIn D v) (hw : v.get? n = some w) : IsIn D w := by
  cases v with
  | map es => exact h.of_mem (Entries.mem_of_get?_eq_some hw)
  | _ => simp [Value.get?] at hw

theorem put (h : IsIn D v) (hw : IsIn D w) : IsIn D (v.put n w) := by
  cases v with
  | map es => exact h.insert (D.key_text n) hw
  | _ => exact h

theorem drop (h : IsIn D v) : IsIn D (v.drop n) := by
  cases v with
  | map es => exact h.erase
  | _ => exact h

theorem ofFields {fields : List (String × Value)} (names : (fields.map Prod.fst).Nodup)
    (values : ∀ f ∈ fields, IsIn D f.2) : IsIn D (Value.ofFields fields) := by
  refine .map ?_ ?_ ?_
  · rwa [Entries.names_ofFields]
  · intro e he
    obtain ⟨f, -, rfl⟩ := List.mem_map.1 he
    exact D.key_text f.1
  · intro e he
    obtain ⟨f, hf, rfl⟩ := List.mem_map.1 he
    exact values f hf

/-- The items of a list, tuple or set. -/
theorem elements {xs : List Value} (h : IsIn D v)
    (hxs : v = .list xs ∨ v = .tuple xs ∨ v = .set xs) : ∀ x ∈ xs, IsIn D x := by
  rcases hxs with rfl | rfl | rfl
  · exact list_iff.1 h
  · exact h.tuple_items
  · exact h.set_items

end IsIn

/-! ### The domains that matter -/

/-- Anything. -/
def Domain.anything : Domain := ⟨fun _ => True, fun _ => True, fun _ => trivial, fun _ => trivial⟩

/-- A mapping keeps one value under each text. -/
abbrev IsProper (v : Value) : Prop := v.IsIn .anything

/-- Anything with only texts as keys. -/
def Domain.textKeyed : Domain :=
  ⟨fun _ => True, fun k => ∃ s, k = .text s, fun _ => trivial, fun s => ⟨s, rfl⟩⟩

/-- What the check of shapes lets through: anything but dates, moments and octets. -/
def IsUndated : Value → Prop
  | .date _ | .moment _ | .bytes _ => False
  | _ => True

/-- Anything but dates, moments and octets, with only texts as keys. -/
def Domain.undated : Domain :=
  ⟨IsUndated, fun k => ∃ s, k = .text s, fun _ => trivial, fun s => ⟨s, rfl⟩⟩

/-- The scalars that JSON can carry: null, truth values, integers that are not too long to be
written out, finite numbers and text. -/
def IsJsonScalar : Value → Prop
  | .null | .bool _ | .text _ => True
  | .int n => (integerText? n).isSome = true
  | .float x => x.isFinite = true
  | _ => False

/-- What JSON can carry: its scalars, lists, and mappings with text keys. -/
def Domain.json : Domain :=
  ⟨IsJsonScalar, fun k => ∃ s, k = .text s, fun _ => trivial, fun s => ⟨s, rfl⟩⟩

/-- The scalars that JSON can stand for: those that it can carry, infinite numbers, and the undefined
number without a label. -/
def IsReadScalar : Value → Prop
  | .null | .bool _ | .text _ => True
  | .int n => (integerText? n).isSome = true
  | .float x => ∀ a, x = .nan a → a = 0
  | _ => False

/-- What JSON can stand for. -/
def Domain.readable : Domain :=
  ⟨IsReadScalar, fun k => ∃ s, k = .text s, fun _ => trivial, fun s => ⟨s, rfl⟩⟩

/-- The scalars and sequences that can be written as JSON: all but sets, dates, moments, octets and
integers that are too long to be written out. -/
def IsWritable : Value → Prop
  | .int n => (integerText? n).isSome = true
  | .set _ | .date _ | .moment _ | .bytes _ => False
  | _ => True

/-- What can be written as JSON with nothing but texts as keys. -/
def Domain.writable : Domain :=
  ⟨IsWritable, fun k => ∃ s, k = .text s, fun _ => trivial, fun s => ⟨s, rfl⟩⟩

theorem isSome_integerText?_of_lt {n : Int} (h : n.natAbs < Nat.pow 10 maxIntegerDigits) :
    (integerText? n).isSome = true := by
  rw [integerText?, if_pos h]
  rfl

theorem isSome_integerText? {n : Int} (h : n.natAbs < 10) : (integerText? n).isSome = true := by
  refine isSome_integerText?_of_lt (Nat.lt_of_lt_of_le h ?_)
  have hdigits : maxIntegerDigits ≠ 0 := by decide
  generalize maxIntegerDigits = limit at hdigits ⊢
  exact Nat.le_self_pow hdigits 10

abbrev IsJson (v : Value) : Prop := v.IsIn .json

theorem IsIn.isProper {D : Domain} {v : Value} (h : v.IsIn D) : v.IsProper :=
  h.mono (fun _ _ => trivial) fun _ _ => trivial

theorem IsIn.getOrNull {D : Domain} {v : Value} {n : String} (h : v.IsIn D) (hnull : D.node .null) :
    (v.getOrNull n).IsIn D := by
  unfold Value.getOrNull
  cases hw : v.get? n with
  | none => exact .scalar rfl hnull
  | some w => exact h.get? hw

theorem entry_eq_ok_iff {v w : Value} {n : String} : v.entry n = .ok w ↔ v.get? n = some w := by
  cases v with
  | map es =>
      rw [entry, Value.get?]
      cases Entries.get? es (.text n) <;> simp
  | _ => simp [entry, Value.get?]

theorem IsIn.of_entry {D : Domain} {v w : Value} {n : String} (h : v.IsIn D)
    (hw : v.entry n = .ok w) : w.IsIn D := h.get? (entry_eq_ok_iff.1 hw)

/-- What a value that JSON can stand for yields is such a value again. -/
theorem IsIn.of_elements {v : Value} {xs : List Value} (h : v.IsIn .readable)
    (hxs : v.elements = .ok xs) : ∀ x ∈ xs, x.IsIn .readable := by
  cases v with
  | list | tuple | set =>
      obtain rfl := Except.ok.inj hxs
      exact h.elements (by simp)
  | text s =>
      obtain rfl := Except.ok.inj hxs
      exact List.forall_mem_map.2 fun c _ => .text _
  | bytes bs => exact (h.node_of_scalar rfl).elim
  | map es =>
      obtain rfl := Except.ok.inj hxs
      refine List.forall_mem_map.2 fun e he => ?_
      obtain ⟨s, hs⟩ := (map_iff.1 h).2.1 e he
      exact hs ▸ .text s
  | _ => cases hxs

theorem IsIn.textKeyed_of_readable {v : Value} (h : v.IsIn .readable) : v.IsIn .textKeyed :=
  h.mono (fun _ _ => trivial) fun _ hk => hk

theorem IsIn.textKeyed_of_undated {v : Value} (h : v.IsIn .undated) : v.IsIn .textKeyed :=
  h.mono (fun _ _ => trivial) fun _ hk => hk

theorem IsIn.textKeyed_of_writable {v : Value} (h : v.IsIn .writable) : v.IsIn .textKeyed :=
  h.mono (fun _ _ => trivial) fun _ hk => hk

theorem IsIn.writable_of_readable {v : Value} (h : v.IsIn .readable) : v.IsIn .writable := by
  refine h.mono (fun w hw => ?_) fun _ hk => hk
  cases w with
  | int n => exact hw
  | set | date | moment | bytes => exact hw.elim
  | _ => trivial

theorem IsJson.readable {v : Value} (h : v.IsJson) : v.IsIn .readable := by
  refine h.mono (fun w hw => ?_) fun _ hk => hk
  cases w with
  | float x =>
      rintro a rfl
      cases hw
  | _ => exact hw

theorem IsJson.textKeyed {v : Value} (h : v.IsJson) : v.IsIn .textKeyed :=
  h.readable.textKeyed_of_readable

theorem IsJson.writable {v : Value} (h : v.IsJson) : v.IsIn .writable :=
  h.readable.writable_of_readable

theorem IsJson.undated {v : Value} (h : v.IsJson) : v.IsIn .undated := by
  refine h.mono (fun w hw => ?_) fun _ hk => hk
  cases w with
  | date | moment | bytes => exact hw.elim
  | _ => trivial

end Value

end FormDesigner
