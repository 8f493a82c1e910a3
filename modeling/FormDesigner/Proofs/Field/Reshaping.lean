import FormDesigner.Proofs.Field.Factory
import FormDesigner.Proofs.Result

/-!
# Fields that get another type

A field of another type has the sample options, no children or a text field as its template if the new
type needs that and it has nothing of the kind, and has nothing left that only other types have. All
else stays as it is.
-/

namespace FormDesigner

open Work (Keeps keeps_pure keeps_throw keeps_ofExcept keeps_modifyGet)

namespace Factory

variable {s : Supply} {v w : Value} {taken : List Value} {type : FieldType}

/-- What stands under a name for which a list is needed, if one is: the list that is there or a new
one. -/
def ownedList (needed : Prop) [Decidable needed] (new : Value) (old : Option Value) : Option Value :=
  if needed then if (old.getD .null).isList then old else some new else none

/-- A field in the shape of a type: it has what the type requires and nothing that only other types
have. -/
structure Reshaped (type : FieldType) (taken : List Value) (v w : Value) : Prop where
  kind : w.get? "type" = some (.text type.name)
  options : w.get? "options" = ownedList type.isChoice sampleOptions (v.get? "options")
  children : w.get? "children" = ownedList (type = .section) (.list []) (v.get? "children")
  noTemplate : type ≠ .array → w.get? "of" = none
  oldTemplate : type = .array → (v.getOrNull "of").isMap = true → w.get? "of" = v.get? "of"
  newTemplate : type = .array → (v.getOrNull "of").isMap = false →
    ∃ id key, Value.text key ∉ taken ∧
      w.get? "of" = some (.ofFields (basicField id key FieldType.text.name (.text "Item")))
  other : ∀ n, n ∉ ["type", "options", "children", "of"] → w.get? n = v.get? n

/-! ### New templates -/

theorem keyAttempts_fresh (start : String) (taken : List Value) (attempt more : Nat) :
    Keeps s.Follows (keyAttempts start taken attempt more) fun key => Value.text key ∉ taken := by
  induction more generalizing attempt with
  | zero => exact keeps_throw
  | succ more ih =>
      refine (Minting.newLetters_keeps _).bind fun suffix _ => ?_
      dsimp only
      split
      · exact ih (attempt + 1)
      · next hfree => exact keeps_pure (mt Value.among_text_iff.2 hfree)

theorem newKey_fresh (start : Value) (taken : List Value) :
    Keeps s.Follows (newKey start taken) fun key => Value.text key ∉ taken :=
  (keeps_ofExcept fun _ _ => trivial).bind fun _ _ => keyAttempts_fresh _ _ _ _

theorem createText_eq (label : String) (taken : List Value) :
    Keeps s.Follows (createAs .text (.text label) taken) fun v =>
      ∃ id key, v = .ofFields (basicField id key FieldType.text.name (.text label)) :=
  (newKey_fresh _ _).bind fun key _ => Minting.newId_keeps.bind fun id _ =>
    keeps_pure ⟨id, key, rfl⟩

theorem put_key_basicField (id key key' type : String) (label : Value) :
    (Value.ofFields (basicField id key type label)).put "key" (.text key') =
      .ofFields (basicField id key' type label) := by
  simp [Value.ofFields, basicField, Value.put, Entries.insert, Entries.contains]

theorem takenKeys_list {keys : List Value} (h : (Value.list keys).takenKeys = .ok taken) :
    taken = keys := by
  unfold Value.takenKeys Value.hashable at h
  rw [Value.elements, Result.ok_bind] at h
  split at h
  · exact (Except.ok.inj h).symm
  · cases h

/-! ### Other types -/

/-- A field with the list that it needs under a name, or with none there. -/
def withList (needed : Prop) [Decidable needed] (n : String) (new v : Value) : Value :=
  if needed then if (v.getOrNull n).isList then v else v.put n new else v.drop n

section

variable {needed : Prop} [Decidable needed] {n m : String} {new : Value}

theorem isMap_withList : (withList needed n new v).isMap = v.isMap := by
  unfold withList
  split
  · split
    · rfl
    · exact Value.isMap_put
  · exact Value.isMap_drop

theorem get?_withList_self (hv : v.isMap = true) :
    (withList needed n new v).get? n = ownedList needed new (v.get? n) := by
  unfold withList ownedList
  split
  · rw [Value.getOrNull]
    split
    · rfl
    · exact Value.get?_put_self hv
  · exact Value.get?_drop_self

theorem get?_withList_of_ne (h : m ≠ n) : (withList needed n new v).get? m = v.get? m := by
  unfold withList
  split
  · split
    · rfl
    · exact Value.get?_put_of_ne h
  · exact Value.get?_drop_of_ne h

end

/-- A field of a type with the options and the children that the type requires. -/
def withLists (t : FieldType) (v : Value) : Value :=
  withList (t = .section) "children" (.list [])
    (withList t.isChoice "options" sampleOptions (v.put "type" (.text t.name)))

theorem isMap_withLists (t : FieldType) : (withLists t v).isMap = v.isMap := by
  rw [withLists, isMap_withList, isMap_withList, Value.isMap_put]

theorem reshape_eq (t : FieldType) (v keys : Value) :
    reshape t v keys =
      if t = .array then
        if ((withLists t v).getOrNull "of").isMap then return withLists t v
        else do
          let template ← createAs .text (.text "Item") []
          let key ← newKey (.text "item") (← Work.ofExcept keys.takenKeys)
          return (withLists t v).put "of" (template.put "key" (.text key))
      else return (withLists t v).drop "of" := rfl

theorem get?_withLists_of_ne (t : FieldType) (h : n ∉ ["type", "options", "children"]) :
    (withLists t v).get? n = v.get? n := by
  simp only [List.mem_cons, List.not_mem_nil, or_false, not_or] at h
  obtain ⟨htype, hoptions, hchildren⟩ := h
  rw [withLists, get?_withList_of_ne hchildren, get?_withList_of_ne hoptions,
    Value.get?_put_of_ne htype]

private theorem reshaped_of_withLists (hv : v.isMap = true) (t : FieldType)
    (h : ∀ n, n ≠ "of" → w.get? n = (withLists t v).get? n)
    (noTemplate : t ≠ .array → w.get? "of" = none)
    (oldTemplate : t = .array → (v.getOrNull "of").isMap = true → w.get? "of" = v.get? "of")
    (newTemplate : t = .array → (v.getOrNull "of").isMap = false → ∃ id key,
      Value.text key ∉ taken ∧
        w.get? "of" = some (.ofFields (basicField id key FieldType.text.name (.text "Item")))) :
    Reshaped t taken v w := by
  have hput : (v.put "type" (.text t.name)).isMap = true := by rwa [Value.isMap_put]
  refine ⟨?_, ?_, ?_, noTemplate, oldTemplate, newTemplate, fun n hn => ?_⟩
  · rw [h _ (by decide), withLists, get?_withList_of_ne (by decide),
      get?_withList_of_ne (by decide), Value.get?_put_self hv]
  · rw [h _ (by decide), withLists, get?_withList_of_ne (by decide), get?_withList_self hput,
      Value.get?_put_of_ne (by decide)]
  · rw [h _ (by decide), withLists, get?_withList_self (by rwa [isMap_withList]),
      get?_withList_of_ne (by decide), Value.get?_put_of_ne (by decide)]
  · simp only [List.mem_cons, List.not_mem_nil, or_false, not_or] at hn
    rw [h _ hn.2.2.2, get?_withLists_of_ne t (by simp [hn])]

/-- What is made of a field for a type has the shape of the type. -/
theorem reshape_reshaped (hv : v.isMap = true) (t : FieldType) (keys : List Value) :
    Keeps s.Follows (reshape t v (.list keys)) (Reshaped t keys v) := by
  have hof : (withLists t v).get? "of" = v.get? "of" := get?_withLists_of_ne t (by decide)
  have hmap : (withLists t v).isMap = true := by rwa [isMap_withLists]
  have hor : (withLists t v).getOrNull "of" = v.getOrNull "of" := by
    rw [Value.getOrNull, hof, Value.getOrNull]
  rw [reshape_eq, hor]
  split
  · next harray =>
      split
      · next htemplate =>
          refine keeps_pure (reshaped_of_withLists hv t (fun _ _ => rfl) (fun h => absurd harray h)
            (fun _ _ => hof) fun _ h => ?_)
          rw [htemplate] at h
          cases h
      · next htemplate =>
          refine (createText_eq "Item" []).bind fun template htext => ?_
          obtain ⟨id, key, rfl⟩ := htext
          refine (keeps_ofExcept fun taken htaken => takenKeys_list htaken).bind fun taken hkeys => ?_
          subst hkeys
          refine (newKey_fresh _ _).bind fun key' hkey => keeps_pure ?_
          refine reshaped_of_withLists hv t (fun n hn => Value.get?_put_of_ne hn)
            (fun h => absurd harray h) (fun _ h => absurd h htemplate) fun _ _ =>
              ⟨id, key', hkey, ?_⟩
          rw [Value.get?_put_self hmap, put_key_basicField]
  · next hother =>
      exact keeps_pure (reshaped_of_withLists hv t (fun n hn => Value.get?_drop_of_ne hn)
        (fun _ => Value.get?_drop_self) (fun h => absurd h hother) fun h => absurd h hother)

theorem retype_reshaped (hv : v.isMap = true) (t : FieldType) (keys : List Value) :
    Keeps s.Follows (retype v (.text t.name) (.list keys)) (Reshaped t keys v) := by
  have htype : FieldType.ofValue? (.text t.name) = some t := FieldType.ofName?_eq_some_iff.2 rfl
  unfold retype
  rw [htype, hv]
  exact reshape_reshaped hv t keys

end Factory

end FormDesigner
