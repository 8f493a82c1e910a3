import FormDesigner.Value.Equality
import Mathlib.Data.List.Nodup

/-!
# Entries under text keys

A text key is the same as another key only if that is the same text, so entries under text keys
behave like a finite map as long as no text is the key of two entries.
-/

namespace FormDesigner

namespace Value

@[simp] theorem same_text_iff {s : String} {k : Value} : (text s).same k = true ↔ k = text s := by
  cases k with
  | text t => simpa [same, sameNan, equals] using eq_comm
  | _ => simp [same, sameNan, equals]

theorem equals_text_iff {s : String} {v : Value} : (text s).equals v = true ↔ v = text s := by
  cases v with
  | text t => simpa [equals] using eq_comm
  | _ => simp [equals]

theorem equals_text_right_iff {v : Value} {s : String} :
    v.equals (.text s) = true ↔ v = .text s := by
  cases v with
  | text t => simp [equals]
  | _ => simp [equals, asQuantity?]

theorem same_text_right_iff {v : Value} {s : String} : v.same (text s) = true ↔ v = text s := by
  rw [same, Bool.or_eq_true, equals_text_right_iff, or_iff_right]
  cases v <;> simp [sameNan]

theorem asText?_eq_some_iff {v : Value} {s : String} : v.asText? = some s ↔ v = text s := by
  cases v <;> simp [asText?]

theorem same_text_eq_false_iff {s : String} {k : Value} : (text s).same k = false ↔ k ≠ text s := by
  rw [← Bool.not_eq_true, same_text_iff]

/-- A text stands among other values exactly if it is one of them. -/
theorem among_text_iff {s : String} {vs : List Value} :
    (text s).among vs = true ↔ text s ∈ vs := by
  simp [among]

theorem among_iff_of_texts {v : Value} {vs : List Value} (hvs : ∀ w ∈ vs, ∃ s, w = text s) :
    v.among vs = true ↔ v ∈ vs := by
  rw [among, List.any_eq_true]
  refine ⟨fun ⟨w, hw, hsame⟩ => ?_, fun h => ⟨v, h, ?_⟩⟩
  · obtain ⟨s, rfl⟩ := hvs w hw
    exact same_text_right_iff.1 hsame ▸ hw
  · obtain ⟨s, rfl⟩ := hvs v h
    exact same_text_right_iff.2 rfl

theorem allEntriesAmong_iff {es fs : Entries} : allEntriesAmong es fs = true ↔
    ∀ e ∈ es, ∃ f, fs.find? (fun f => e.1.same f.1) = some f ∧ e.2.same f.2 = true := by
  induction es with
  | nil => simp [allEntriesAmong]
  | cons e es ih =>
      obtain ⟨k, v⟩ := e
      rw [allEntriesAmong, Bool.and_eq_true, ih, List.forall_mem_cons]
      refine and_congr_left fun _ => ?_
      simp only [same]
      cases fs.find? (fun f => k.sameNan f.1 || k.equals f.1) with
      | none => simp
      | some f => simp

end Value

namespace Entries

open Value (text)

variable {es fs : Entries} {e : Value × Value} {k v w : Value} {n m : String}

/-- The texts among the keys. -/
def names (es : Entries) : List String := es.filterMap fun e => e.1.asText?

@[simp] theorem names_nil : names [] = [] := rfl

theorem names_cons_text (n : String) (v : Value) (es : Entries) :
    names ((text n, v) :: es) = n :: names es := rfl

@[simp] theorem names_append (es fs : Entries) : names (es ++ fs) = names es ++ names fs :=
  List.filterMap_append

theorem mem_names_iff : n ∈ names es ↔ ∃ v, (text n, v) ∈ es := by
  simp [names, Value.asText?_eq_some_iff]

theorem names_sublist (h : es.Sublist fs) : (names es).Sublist (names fs) := h.filterMap _

theorem names_perm (h : es.Perm fs) : (names es).Perm (names fs) := h.filterMap _

/-- Changing values keeps the keys. -/
theorem names_map_values (f : Value × Value → Value) (es : Entries) :
    names (es.map fun e => (e.1, f e)) = names es := by
  simp [names, List.filterMap_map]

/-! ### Looking up -/

@[simp] theorem get?_nil : get? [] k = none := rfl

theorem get?_cons_self (n : String) (v : Value) (es : Entries) :
    get? ((text n, v) :: es) (text n) = some v := by
  simp [get?, Value.same_text_iff.2]

theorem get?_cons_of_ne {k : Value} (h : k ≠ text n) (v : Value) (es : Entries) :
    get? ((k, v) :: es) (text n) = get? es (text n) := by
  have : (text n).same k = false := Bool.eq_false_iff.2 fun hk => h (Value.same_text_iff.1 hk)
  simp [get?, this]

theorem same_of_find? (h : (es.find? fun e => k.same e.1) = some e) : k.same e.1 = true :=
  List.find?_some (p := fun e : Value × Value => k.same e.1) h

theorem mem_of_get?_eq_some (h : get? es (text n) = some v) : (text n, v) ∈ es := by
  obtain ⟨⟨k, w⟩, hfind, rfl⟩ := Option.map_eq_some_iff.1 h
  obtain rfl := Value.same_text_iff.1 (same_of_find? hfind)
  exact List.mem_of_find?_eq_some hfind

theorem get?_eq_none_iff : get? es (text n) = none ↔ n ∉ names es := by
  simp [get?, mem_names_iff]
  exact ⟨fun h v hv => h _ _ hv rfl, fun h k v hkv hk => h v (hk ▸ hkv)⟩

theorem get?_isSome_iff : (get? es (text n)).isSome = true ↔ n ∈ names es := by
  rw [← not_iff_not, Bool.not_eq_true, Option.isSome_eq_false_iff, Option.isNone_iff_eq_none,
    get?_eq_none_iff]

/-- Among entries whose text keys differ, every entry under a text is found. -/
theorem get?_eq_some_iff (hes : (names es).Nodup) :
    get? es (text n) = some v ↔ (text n, v) ∈ es := by
  refine ⟨mem_of_get?_eq_some, fun h => ?_⟩
  induction es with
  | nil => simp at h
  | cons e es ih =>
      obtain ⟨k, w⟩ := e
      by_cases hk : k = text n
      · subst hk
        rw [names_cons_text, List.nodup_cons] at hes
        rcases List.mem_cons.1 h with h | h
        · obtain rfl : v = w := congrArg Prod.snd h
          rw [get?_cons_self]
        · exact absurd (mem_names_iff.2 ⟨v, h⟩) hes.1
      · rw [get?_cons_of_ne hk]
        refine ih (hes.sublist (names_sublist (List.sublist_cons_self _ _))) ?_
        rcases List.mem_cons.1 h with h | h
        · exact absurd (congrArg Prod.fst h).symm hk
        · exact h

theorem names_ofFields (fields : List (String × Value)) :
    names (fields.map fun f => (text f.1, f.2)) = fields.map Prod.fst := by
  rw [names, List.filterMap_map]
  exact List.filterMap_eq_map (f := Prod.fst) ▸ rfl

/-- The value of a field. -/
theorem get?_ofFields {fields : List (String × Value)} (names : (fields.map Prod.fst).Nodup)
    (h : (n, v) ∈ fields) : (Value.ofFields fields).get? n = some v := by
  refine (get?_eq_some_iff ?_).2 (List.mem_map.2 ⟨(n, v), h, rfl⟩)
  rwa [names_ofFields]

theorem get?_perm (hes : (names es).Nodup) (h : es.Perm fs) :
    get? es (text n) = get? fs (text n) := by
  have hfs : (names fs).Nodup := (names_perm h).nodup_iff.1 hes
  ext v
  rw [get?_eq_some_iff hes, get?_eq_some_iff hfs, h.mem_iff]

theorem get?_map_entries (f : Value × Value → Value) (es : Entries) :
    get? (es.map fun e => (e.1, f e)) k = (es.find? fun e => k.same e.1).map f := by
  simp [get?, List.find?_map, Function.comp_def]

theorem get?_map_values (f : Value → Value) (es : Entries) :
    get? (es.map fun e => (e.1, f e.2)) k = (get? es k).map f := by
  rw [get?_map_entries fun e => f e.2, get?, Option.map_map]
  rfl

/-! ### Storing -/

theorem contains_text_iff : contains es (text n) = true ↔ n ∈ names es := by
  simp [contains, mem_names_iff]

theorem insert_of_notMem (h : n ∉ names es) : insert es (text n) v = es ++ [(text n, v)] := by
  rw [insert, if_neg (mt contains_text_iff.1 h)]

/-- Entries with new keys are added at the end. -/
theorem insertAll_of_nodup (names_nodup : (names (es ++ fs)).Nodup)
    (keys : ∀ f ∈ fs, ∃ n, f.1 = text n) : insertAll es fs = es ++ fs := by
  induction fs generalizing es with
  | nil => simp [insertAll]
  | cons f fs ih =>
      obtain ⟨_, v⟩ := f
      obtain ⟨⟨n, rfl⟩, hkeys⟩ := List.forall_mem_cons.1 keys
      have hn : n ∉ names es := by
        rw [names_append, names_cons_text] at names_nodup
        exact fun hmem => (List.disjoint_of_nodup_append names_nodup) hmem (.head _)
      change insertAll (insert es (text n) v) fs = _
      rw [insert_of_notMem hn, ih (by simpa using names_nodup) hkeys, List.append_assoc]
      rfl

/-- Storing under a key keeps the keys or adds that key at the end. -/
theorem insert_cases (es : Entries) (k v : Value) :
    (contains es k = true ∧
        insert es k v = es.map fun e => (e.1, if k.same e.1 then v else e.2)) ∨
      contains es k = false ∧ insert es k v = es ++ [(k, v)] := by
  by_cases h : contains es k = true
  · refine .inl ⟨h, ?_⟩
    rw [insert, if_pos h]
    refine List.map_congr_left fun e _ => ?_
    split <;> rfl
  · refine .inr ⟨Bool.eq_false_iff.2 h, ?_⟩
    rw [insert, if_neg h]

theorem mem_insert (h : e ∈ insert es k v) :
    e ∈ es ∨ e.2 = v ∧ (e.1 = k ∨ e.1 ∈ keys es) := by
  rcases insert_cases es k v with ⟨-, hi⟩ | ⟨-, hi⟩
  · rw [hi] at h
    obtain ⟨⟨j, w⟩, hd, rfl⟩ := List.mem_map.1 h
    by_cases hk : k.same j = true
    · exact .inr ⟨by simp [hk], .inr (List.mem_map.2 ⟨_, hd, rfl⟩)⟩
    · exact .inl (by simpa [hk] using hd)
  · rw [hi] at h
    rcases List.mem_append.1 h with h | h
    · exact .inl h
    · obtain rfl := List.mem_singleton.1 h
      exact .inr ⟨rfl, .inl rfl⟩

theorem names_insert_nodup (hes : (names es).Nodup) : (names (insert es k v)).Nodup := by
  rcases insert_cases es k v with ⟨-, hi⟩ | ⟨hk, hi⟩
  · rwa [hi, names_map_values]
  · rw [hi, names_append]
    cases k with
    | text n =>
        have hn : n ∉ names es := by rw [← contains_text_iff, hk]; decide
        exact List.Nodup.append hes (List.nodup_singleton n)
          (fun m hm hmn => hn (by rwa [List.mem_singleton.1 hmn] at hm))
    | _ => simpa [names, Value.asText?] using hes

@[simp] theorem get?_insert_self : get? (insert es (text n) v) (text n) = some v := by
  rcases insert_cases es (text n) v with ⟨hk, hi⟩ | ⟨hk, hi⟩
  · rw [hi, get?_map_entries fun e => if (text n).same e.1 then v else e.2]
    obtain ⟨w, hw⟩ := Option.isSome_iff_exists.1 (get?_isSome_iff.2 (contains_text_iff.1 hk))
    obtain ⟨e, he, -⟩ := Option.map_eq_some_iff.1 hw
    rw [he, Option.map_some, if_pos (same_of_find? he)]
  · have hnone : es.find? (fun e => (text n).same e.1) = none := by
      have hn : n ∉ names es := by rw [← contains_text_iff, hk]; decide
      simpa [get?] using get?_eq_none_iff.2 hn
    rw [hi, get?, List.find?_append, hnone]
    simp [Value.same_text_iff.2]

theorem get?_insert_of_ne_key (h : k ≠ text m) :
    get? (insert es k v) (text m) = get? es (text m) := by
  have hne : ∀ j, (text m).same j = true → k.same j = false := by
    intro j hm
    rw [Value.same_text_iff.1 hm]
    exact Bool.eq_false_iff.2 fun hk => h (Value.same_text_right_iff.1 hk)
  rcases insert_cases es k v with ⟨-, hi⟩ | ⟨-, hi⟩
  · rw [hi, get?_map_entries fun e => if k.same e.1 then v else e.2, get?]
    refine Option.map_congr fun e he => ?_
    rw [if_neg (Bool.eq_false_iff.1 (hne e.1 (same_of_find? he)))]
  · have hlast : (text m).same k = false :=
      Bool.eq_false_iff.2 fun hs => h (Value.same_text_iff.1 hs)
    simp [hi, get?, List.find?_append, hlast]

theorem get?_insert_of_ne (h : m ≠ n) :
    get? (insert es (text n) v) (text m) = get? es (text m) :=
  get?_insert_of_ne_key fun heq => h (Value.text.inj heq).symm

/-! ### Storing many entries -/

theorem get?_append (es fs : Entries) (k : Value) :
    get? (es ++ fs) k = (get? es k).or (get? fs k) := by
  rw [get?, List.find?_append, Option.map_or]
  rfl

/-- What stands under a text after many entries have been stored is the last of them there. -/
theorem get?_insertAll (es fs : Entries) (n : String) :
    get? (insertAll es fs) (text n) = (get? fs.reverse (text n)).or (get? es (text n)) := by
  induction fs generalizing es with
  | nil => rfl
  | cons f fs ih =>
      obtain ⟨k, v⟩ := f
      change get? (insertAll (insert es k v) fs) (text n) = _
      rw [ih, List.reverse_cons, get?_append, Option.or_assoc]
      congr 1
      by_cases hk : k = text n
      · rw [hk, get?_insert_self, get?_cons_self, Option.some_or]
      · rw [get?_insert_of_ne_key hk, get?_cons_of_ne hk, get?_nil, Option.none_or]

theorem get?_reverse_insert (es : Entries) (n : String) (v : Value) (m : String) :
    get? (insert es (text n) v).reverse (text m) =
      if m = n then some v else get? es.reverse (text m) := by
  rcases insert_cases es (text n) v with ⟨hk, hi⟩ | ⟨-, hi⟩
  · have hreverse : (insert es (text n) v).reverse = insert es.reverse (text n) v := by
      rcases insert_cases es.reverse (text n) v with ⟨-, hi'⟩ | ⟨hk', -⟩
      · rw [hi, hi', List.map_reverse]
      · rw [contains_text_iff, mem_names_iff] at hk
        rw [Bool.eq_false_iff, Ne, contains_text_iff, mem_names_iff] at hk'
        exact absurd (hk.imp fun w hw => List.mem_reverse.2 hw) hk'
    rw [hreverse]
    split
    · rename_i h
      rw [h, get?_insert_self]
    · exact get?_insert_of_ne ‹_›
  · rw [hi, List.reverse_append, List.reverse_singleton, List.singleton_append]
    split
    · rename_i h
      rw [h, get?_cons_self]
    · exact get?_cons_of_ne (fun heq => ‹¬m = n› (Value.text.inj heq).symm) _ _

/-- Storing an entry among those that are stored is storing it after them. -/
theorem get?_insertAll_insert (es fs : Entries) (n : String) (v : Value) (m : String) :
    get? (insertAll es (insert fs (text n) v)) (text m) =
      if m = n then some v else get? (insertAll es fs) (text m) := by
  rw [get?_insertAll, get?_reverse_insert, get?_insertAll]
  split
  · rw [Option.some_or]
  · rfl

/-! ### Dropping -/

theorem erase_sublist : (erase es k).Sublist es := List.filter_sublist

theorem erase_eq_self (h : get? es (text n) = none) : erase es (text n) = es := by
  refine List.filter_eq_self.2 fun e he => ?_
  rw [Bool.not_eq_true', Value.same_text_eq_false_iff]
  rintro hn
  rw [get?_eq_none_iff, mem_names_iff] at h
  exact h ⟨e.2, hn ▸ he⟩

theorem get?_erase_self : get? (erase es (text n)) (text n) = none := by
  rw [get?_eq_none_iff, mem_names_iff]
  rintro ⟨v, hv⟩
  have hkept := (List.mem_filter.1 hv).2
  rw [Value.same_text_iff.2 rfl] at hkept
  cases hkept

theorem get?_erase_of_ne_key (h : k ≠ text m) : get? (erase es k) (text m) = get? es (text m) := by
  unfold get? erase
  rw [List.find?_filter]
  refine congrArg (fun p => (es.find? p).map (·.2)) (funext fun e => ?_)
  by_cases hm : (text m).same e.1 = true
  · have hk : k.same e.1 = false := by
      rw [Value.same_text_iff.1 hm]
      exact Bool.eq_false_iff.2 fun hk => h (Value.same_text_right_iff.1 hk)
    rw [hm, hk]
    rfl
  · simp [hm]

theorem get?_erase_of_ne (h : m ≠ n) : get? (erase es (text n)) (text m) = get? es (text m) :=
  get?_erase_of_ne_key fun heq => h (Value.text.inj heq).symm

/-- Dropping what has been stored is dropping what stood there before. -/
theorem erase_insert_self : erase (insert es (text n) v) (text n) = erase es (text n) := by
  rcases insert_cases es (text n) v with ⟨-, hi⟩ | ⟨-, hi⟩
  · rw [hi, erase, List.filter_map]
    refine (List.map_congr_left fun e he => ?_).trans (List.map_id _)
    have hkept := (List.mem_filter.1 he).2
    rw [Function.comp_apply, Bool.not_eq_true'] at hkept
    rw [if_neg (Bool.eq_false_iff.1 hkept)]
    rfl
  · rw [hi, erase, List.filter_append, List.filter_singleton, Value.same_text_iff.2 rfl]
    exact List.append_nil _

private theorem contains_erase_of_ne_key (h : k ≠ text m) :
    contains (erase es k) (text m) = contains es (text m) := by
  have hiff : ∀ fs : Entries, contains fs (text m) = (get? fs (text m)).isSome := fun fs => by
    rw [Bool.eq_iff_iff, contains_text_iff, get?_isSome_iff]
  rw [hiff, hiff, get?_erase_of_ne_key h]

/-- Storing under a text and dropping another key can be done in either order. -/
theorem erase_insert_of_ne_key (h : k ≠ text n) :
    erase (insert es (text n) v) k = insert (erase es k) (text n) v := by
  have hcontains : contains (erase es k) (text n) = contains es (text n) :=
    contains_erase_of_ne_key h
  rcases insert_cases es (text n) v with ⟨hin, hi⟩ | ⟨hout, hi⟩
  · rcases insert_cases (erase es k) (text n) v with ⟨-, hi'⟩ | ⟨hout, -⟩
    · rw [hi, hi', erase, List.filter_map]
      rfl
    · rw [hcontains, hin] at hout
      cases hout
  · rcases insert_cases (erase es k) (text n) v with ⟨hin, -⟩ | ⟨-, hi'⟩
    · rw [hcontains, hout] at hin
      cases hin
    · have hkept : k.same (text n) = false :=
        Bool.eq_false_iff.2 fun hsame => h (Value.same_text_right_iff.1 hsame)
      rw [hi, hi', erase, List.filter_append, List.filter_singleton, hkept]
      rfl

theorem erase_insert_of_ne (h : m ≠ n) :
    erase (insert es (text n) v) (text m) = insert (erase es (text m)) (text n) v :=
  erase_insert_of_ne_key fun heq => h (Value.text.inj heq)

private theorem insert_of_contains (h : contains es k = true) :
    insert es k v = es.map fun e => (e.1, if k.same e.1 then v else e.2) :=
  (insert_cases es k v).elim And.right fun hout => by
    rw [h] at hout
    cases hout.1

/-- Storing in place can be done before or after storing under another key. -/
theorem insert_insert_of_ne_key (h : k ≠ text n) (hn : n ∈ names es) :
    insert (insert es (text n) v) k w = insert (insert es k w) (text n) v := by
  have hstored := insert_of_contains (v := v) (contains_text_iff.2 hn)
  have hcontains : contains (insert es (text n) v) k = contains es k := by
    rw [hstored, contains, List.any_map]
    rfl
  have hin : contains (insert es k w) (text n) = true := by
    rw [contains_text_iff, ← get?_isSome_iff, get?_insert_of_ne_key h, get?_isSome_iff]
    exact hn
  rw [insert_of_contains hin]
  rcases insert_cases es k w with ⟨hk, hi⟩ | ⟨hk, hi⟩
  · rw [insert_of_contains (hcontains.trans hk), hstored, hi, List.map_map, List.map_map]
    refine List.map_congr_left fun e _ => Prod.ext rfl ?_
    change (if k.same e.1 then w else if (text n).same e.1 then v else e.2) =
      if (text n).same e.1 then v else if k.same e.1 then w else e.2
    by_cases htext : (text n).same e.1 = true
    · have hkey : ¬ k.same e.1 = true := by
        rwa [Value.same_text_iff.1 htext, Value.same_text_right_iff]
      rw [if_neg hkey, if_pos htext, if_pos htext]
    · rw [if_neg htext, if_neg htext]
  · have hlast : (text n).same k = false := Value.same_text_eq_false_iff.2 h
    rw [insert, hcontains, hk, hstored, hi, List.map_append, List.map_singleton, hlast]
    rfl

/-- What is stored last stays. -/
theorem insert_insert_self : insert (insert es (text n) v) (text n) w = insert es (text n) w := by
  rcases insert_cases es (text n) v with ⟨hin, hi⟩ | ⟨hout, hi⟩
  · have hin' : contains (insert es (text n) v) (text n) = true := by
      rw [contains_text_iff] at hin ⊢
      rw [hi, names_map_values]
      exact hin
    rcases insert_cases (insert es (text n) v) (text n) w with ⟨-, hi'⟩ | ⟨hout, -⟩
    · rcases insert_cases es (text n) w with ⟨-, hi''⟩ | ⟨hout, -⟩
      · rw [hi', hi, hi'', List.map_map]
        refine List.map_congr_left fun e _ => ?_
        rw [Function.comp_apply]
        split <;> rfl
      · rw [hin] at hout
        cases hout
    · rw [hin'] at hout
      cases hout
  · have hnames : n ∉ names es := fun hn => by
      rw [contains_text_iff.2 hn] at hout
      cases hout
    have hself : (text n).same (text n) = true := Value.same_text_iff.2 rfl
    have hother : ∀ e ∈ es, (text n).same e.1 = false := fun e he => by
      rw [Value.same_text_eq_false_iff]
      exact fun heq => hnames (mem_names_iff.2 ⟨e.2, heq ▸ he⟩)
    rw [insert_of_notMem hnames, insert_of_notMem hnames, insert, if_pos]
    · rw [List.map_append, List.map_singleton, if_pos hself]
      refine congrArg (· ++ _) ((List.map_congr_left fun e he => ?_).trans (List.map_id _))
      rw [if_neg (Bool.eq_false_iff.1 (hother e he))]
      rfl
    · rw [contains_text_iff, names_append]
      exact List.mem_append_right _ (.head _)

/-- Storing what is there already changes nothing. -/
theorem insert_eq_self (hes : (names es).Nodup) (h : get? es (text n) = some v) :
    insert es (text n) v = es := by
  rcases insert_cases es (text n) v with ⟨-, hi⟩ | ⟨hk, -⟩
  · rw [hi]
    refine (List.map_congr_left fun e he => ?_).trans (List.map_id _)
    split
    · next hsame =>
        have hname : e.1 = text n := Value.same_text_iff.1 hsame
        have hvalue := (get?_eq_some_iff hes).2 (hname ▸ he : (text n, e.2) ∈ es)
        obtain rfl := Option.some.inj (hvalue.symm.trans h)
        rfl
    · rfl
  · have hn : n ∈ names es := get?_isSome_iff.1 (Option.isSome_of_eq_some h)
    rw [contains_text_iff.2 hn] at hk
    cases hk

end Entries

end FormDesigner
