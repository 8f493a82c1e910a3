import FormDesigner.Proofs.Field.Rearranging
import FormDesigner.Proofs.Store.Adding

/-!
# Moving a field

A field can be moved among its siblings: the fields at the root, or the children of a section that is
found. It goes where it is to go, the others keep their order, and nothing else in the schema changes;
a move back gives the schema that there was before. What is no position is refused.
-/

namespace FormDesigner

open Work
open Command (AreSound)
open FormDesigner.Field (ofValue)

/-- Moves one of the children of a section, or of the fields at the root. -/
def Command.move (owner : Option Value) (source target : Value) : Command :=
  match owner with
  | none => .moveField source target
  | some id => .moveChild id source target

/-- What a move is called in the history. -/
def Command.moveLabel (owner : Option Value) : String :=
  match owner with
  | none => "move_field"
  | some _ => "move_child"

/-- What a move answers that goes through. -/
def Command.moveReply (owner : Option Value) (v : Value) : Except Failure Reply :=
  .ok (.outcome (.success (moveLabel owner) (v.getOrNull "id")))

namespace Store

variable {s t : Store} {owner : Option Value} {xs ys : List Value} {i j : Nat}

/-- What stands side by side: the fields at the root, or the children of a section with an id. -/
inductive Siblings (s : Store) : Option Value → List Value → Prop
  | root : Siblings s none (Schema.rootFields s.schema)
  | children {id : Value} {g : Field} (found : s.find? id = some g) (isSection : g.isSection = true) :
      Siblings s (some id) (Forest.toValues g.children)

/-- Fields are those of a store, except that others stand in the place of siblings. -/
inductive Rearranges (s : Store) (ys : List Value) : Option Value → List Value → Prop
  | root : Rearranges s ys none ys
  | children {id : Value} {g : Field} {fields : List Value} (found : s.find? id = some g)
      (tree : Forest.Spliced g.value [g.value.put "children" (.list ys)]
        (Schema.rootFields s.schema) fields) : Rearranges s ys (some id) fields

/-- One of the siblings has another position, and nothing else in the schema is changed. -/
structure Moves (s : Store) (owner : Option Value) (xs : List Value) (i j : Nat) (ys : List Value)
    (t : Store) : Prop where
  there : ys[j]? = xs[i]?
  others : ys.eraseIdx j = xs.eraseIdx i
  siblings : t.Siblings owner ys
  rest : ∃ fields, s.Rearranges ys owner fields ∧ t.schema = s.schema.put "fields" (.list fields)

/-- The fields of a store with siblings replaced by others, as a move works them out. -/
def withSiblings (s : Store) (owner : Option Value) (ys : List Value) : List Value :=
  match owner with
  | none => ys
  | some id => Forest.replaceChildren id ys s.forest

theorem IsSound.withSiblings_rearranges (hs : s.IsSound .json) (h : s.Siblings owner xs)
    (ys : List Value) : s.Rearranges ys owner (s.withSiblings owner ys) := by
  cases h with
  | root => exact .root
  | @children id g found isSection =>
      obtain ⟨w, hw, hwid, rfl, -, -⟩ := hs.find? found
      rw [Field.isSection, Field.value_ofValue] at isSection
      refine .children found ?_
      rw [Field.value_ofValue, withSiblings, forest_eq]
      exact Forest.replaceChildren_spliced hs.fields hs.schema.ids hw hwid isSection ys

/-- Siblings that are the present ones need not be replaced. -/
theorem IsSound.withSiblings_eq_self (hs : s.IsSound .json) (h : s.Siblings owner xs) :
    s.withSiblings owner xs = Schema.rootFields s.schema := by
  cases h with
  | root => rfl
  | @children id g found isSection =>
      obtain ⟨w, hw, hwid, rfl, -, -⟩ := hs.find? found
      rw [Field.children_ofValue, Forest.toValues_map_ofValue, withSiblings, forest_eq]
      exact Forest.replaceChildren_childValues hs.fields hs.schema.ids hw hwid

/-- Only the siblings that were put in place last count. -/
theorem withSiblings_withSiblings
    (h : Schema.rootFields t.schema = s.withSiblings owner ys) (xs : List Value) :
    t.withSiblings owner xs = s.withSiblings owner xs := by
  cases owner with
  | none => rfl
  | some id =>
      rw [withSiblings, withSiblings, forest_eq, forest_eq, h, withSiblings, forest_eq]
      exact Forest.replaceChildren_replaceChildren id xs ys _

section Moved

variable (hs : s.IsSound .json) (h : s.Siblings owner xs) (hi : i < xs.length)
  (hj : j < xs.length)
include hs h hi hj

/-- Siblings in another order can be those of a sound schema. -/
theorem IsSound.areSound_moved : AreSound .json (s.withSiblings owner (moved xs i j)) := by
  cases h with
  | root =>
      have hlength : s.forest.length = (Schema.rootFields s.schema).length := by
        rw [forest_eq, List.length_map]
      have hrewrites : Command.Rewrites s (.moveField .null .null) (moved s.forest.toValues i j) :=
        .moveField (hlength ▸ hi) (hlength ▸ hj)
      rw [forest_eq, Forest.toValues_map_ofValue] at hrewrites
      exact hrewrites.areSound hs trivial
  | @children id g found isSection =>
      have hlength : (Forest.toValues g.children).length = g.children.length := List.length_map _
      have hrewrites : Command.Rewrites s (.moveChild id .null .null) _ :=
        .moveChild found isSection (hlength ▸ hi) (hlength ▸ hj)
      exact hrewrites.areSound hs trivial

theorem IsSound.moves
    (ht : t.schema = s.schema.put "fields" (.list (s.withSiblings owner (moved xs i j)))) :
    s.Moves owner xs i j (moved xs i j) t := by
  have hsound := hs.areSound_moved h hi hj
  have hroots := hs.rootFields_eq ht
  refine ⟨getElem?_moved hi hj, eraseIdx_moved hi, ?_, _, hs.withSiblings_rearranges h _, ht⟩
  cases h with
  | root =>
      rw [withSiblings] at hroots
      exact hroots ▸ .root
  | @children id g found isSection =>
      obtain ⟨w, hw, hwid, rfl, -, -⟩ := hs.find? found
      rw [Field.isSection, Field.value_ofValue] at isSection
      rw [Field.children_ofValue, Forest.toValues_map_ofValue] at hroots hsound ⊢
      have hid : Forest.hasId id (w.put "children" (.list (moved w.childValues i j))) = true := by
        rwa [Forest.hasId, Value.getOrNull_put_of_ne (by decide)]
      have hspliced := Forest.replaceChildren_spliced hs.fields hs.schema.ids hw hwid isSection
        (moved w.childValues i j)
      rw [← forest_eq] at hspliced
      have hfound : t.find? id = some (ofValue (w.put "children" (.list (moved w.childValues i j)))) := by
        rw [Store.find?, forest_eq, hroots]
        exact Forest.find?_of_hasId (fun x hx => (hsound.each x hx).2) hsound.ids
          (hspliced.mem_nodes (.head _)) hid
      have hsiblings := Siblings.children hfound (by
        rwa [Field.isSection, Field.value_ofValue, Value.isSection_put (by decide)])
      rwa [Field.children_ofValue, Value.childValues_put_children isSection,
        Forest.toValues_map_ofValue] at hsiblings

end Moved

/-- Where the siblings are again what they were, so is the schema. -/
theorem IsSound.schema_eq (hs : s.IsSound .json) (h : s.Siblings owner xs) {u : Store}
    (ht : t.schema = s.schema.put "fields" (.list (s.withSiblings owner ys)))
    (hu : u.schema = t.schema.put "fields" (.list (t.withSiblings owner xs))) :
    u.schema = s.schema := by
  have hfields : s.schema.get? "fields" = some (.list (Schema.rootFields s.schema)) :=
    Value.get?_of_getOrNull hs.fields_eq nofun
  rw [hu, withSiblings_withSiblings (hs.rootFields_eq ht), hs.withSiblings_eq_self h, ht,
    Value.put_put, Value.put_eq_self hs.schema.isIn.isProper hfields]

end Store

namespace Editing

variable {s : Store} {owner : Option Value} {xs : List Value} {i j : Nat} {v w : Value}

theorem position?_natCast {n : Nat} (hi : i < n) : position? n (.int i) = some i := by
  rw [position?, if_pos ⟨by omega, by omega⟩, Int.toNat_natCast]

theorem position?_eq_none {n : Nat} {k : Int} (hk : ¬ (0 ≤ k ∧ k < n)) :
    position? n (.int k) = none := by
  rw [position?, if_neg hk]

/-- A position that can be written out is named when it is refused. -/
theorem exists_outOfRange {n : Nat} {k : Int}
    (hk : n = 0 ∨ (integerText? k).isSome = true) (id : Value) :
    ∃ o, outOfRange n (.int k) id = .ok o ∧ o.ok = false ∧ o.code = .outOfRange := by
  unfold outOfRange
  split
  · exact ⟨.failure .outOfRange "There is nothing to move" id [], rfl, rfl, rfl⟩
  · obtain ⟨text, htext⟩ := Option.isSome_iff_exists.1 (hk.resolve_left ‹_›)
    refine ⟨.failure .outOfRange ("Position " ++ text ++ " is outside 0.." ++ toString (n - 1)) id [],
      ?_, rfl, rfl⟩
    rw [Value.quoted, Value.quoted?, htext]
    rfl

/-- A move is one among the siblings. -/
theorem ends_move (hs : s.IsSound .json) (h : s.Siblings owner xs)
    {Q : Except Failure Reply → Store → Prop} : (Command.move owner v w).run.Ends s Q ↔
      (moveAmong (xs.map ofValue) v w (owner.getD .null) (Command.moveLabel owner)
        (s.withSiblings owner)).Ends s fun r t => Q (r.map .outcome) t := by
  cases h with
  | root =>
      refine (ends_map _).trans ?_
      unfold moveField
      rw [ends_bind, ends_get, andThen_ok, Store.forest_eq]
      exact Iff.rfl
  | @children id g found isSection =>
      obtain ⟨u, -, -, rfl, -, -⟩ := hs.find? found
      refine (ends_map _).trans ?_
      unfold moveChild
      rw [ends_bind, ends_get, andThen_ok, ends_bind, ends_ofExcept, section?_eq_ok found isSection,
        andThen_ok]
      dsimp only
      rw [Field.children_ofValue, Forest.toValues_map_ofValue]
      exact Iff.rfl

/-- Moving to another position commits the siblings in their new order. -/
theorem move_commits (hs : s.IsSound .json) (h : s.Siblings owner xs) (hi : i < xs.length)
    (hj : j < xs.length) (hij : i ≠ j) : (Command.move owner (.int i) (.int j)).run.Ends s fun r t =>
      s.Commits (s.withSiblings owner (moved xs i j)) t ∧
        (s.CanSave → r = Command.moveReply owner xs[i]) := by
  have hid : (((xs.map ofValue)[i]?).map Field.id).getD .null = xs[i].getOrNull "id" := by
    rw [List.getElem?_map, List.getElem?_eq_getElem hi, Option.map_some, Option.map_some,
      Option.getD_some, Field.id, Field.get, Field.value_ofValue]
  rw [ends_move hs h]
  unfold moveAmong
  dsimp only
  rw [List.length_map, position?_natCast hi, position?_natCast hj]
  dsimp only
  rw [if_neg hij, hid, Forest.toValues_map_ofValue]
  refine (commit_committed hs (hs.areSound_moved h hi hj) _ _).mono fun r t hcommitted => ?_
  exact ⟨hcommitted.commits, fun hsave =>
    congrArg (Except.map Reply.outcome) (hcommitted.answer hsave)⟩

/-- Moving to another position puts the siblings in place in their new order. -/
theorem move_moves (hs : s.IsSound .json) (h : s.Siblings owner xs) (hi : i < xs.length)
    (hj : j < xs.length) (hij : i ≠ j) : (Command.move owner (.int i) (.int j)).run.Ends s fun r t =>
      t.schema = s.schema.put "fields" (.list (s.withSiblings owner (moved xs i j))) ∧
        (s.CanSave → r = Command.moveReply owner xs[i]) :=
  (move_commits hs h hi hj hij).mono fun _ _ h => ⟨h.1.schema, h.2⟩

theorem move_refuses (hs : s.IsSound .json) (h : s.Siblings owner xs) {k l : Int}
    (hout : ¬ (0 ≤ k ∧ k < xs.length) ∨ ¬ (0 ≤ l ∧ l < xs.length))
    (hwritten : ∀ m ∈ [k, l], (0 ≤ m ∧ m < xs.length) ∨ xs.length = 0 ∨
      (integerText? m).isSome = true) :
    (Command.move owner (.int k) (.int l)).run.Ends s fun r t =>
      (∃ o, r = .ok (.outcome o) ∧ o.ok = false ∧ o.code = .outOfRange) ∧ t = s := by
  have hrefused : ∀ m ∈ [k, l], ¬ (0 ≤ m ∧ m < xs.length) →
      (Work.ofExcept (outOfRange xs.length (.int m) (owner.getD .null)) : Editing Outcome).Ends s
        fun r t => (∃ o, r.map Reply.outcome = .ok (.outcome o) ∧ o.ok = false ∧
          o.code = .outOfRange) ∧ t = s := by
    intro m hm hmout
    obtain ⟨o, ho, hok⟩ := exists_outOfRange ((hwritten m hm).resolve_left hmout) (owner.getD .null)
    rw [ends_ofExcept, ho]
    exact ⟨⟨o, rfl, hok⟩, rfl⟩
  rw [ends_move hs h]
  unfold moveAmong
  dsimp only
  rw [List.length_map]
  by_cases hk : 0 ≤ k ∧ k < xs.length
  · have hl := hout.resolve_left (not_not_intro hk)
    obtain ⟨i, rfl⟩ := Int.eq_ofNat_of_zero_le hk.1
    rw [position?_natCast (Int.ofNat_lt.1 hk.2), position?_eq_none hl]
    exact hrefused l (.tail _ (.head _)) hl
  · rw [position?_eq_none hk]
    exact hrefused k (.head _) hk

end Editing

/-- In a store whose documents JSON can carry, a field that is moved among its siblings stands where it
was to go, with the others in the order that they had and all else as it was. Moving it back restores
the schema. A position that is none of the list is refused, provided that it can be written out or that
there is nothing to move. -/
theorem Store.Reachable.moves_back {s : Store} {capacity : Value} {owner : Option Value}
    {xs : List Value} (hs : s.Reachable (fun s c => c.Brings .json s) capacity)
    (h : s.Siblings owner xs) :
    (∀ (i j : Nat) (hi : i < xs.length), j < xs.length → i ≠ j →
      ∃ ys r t, (Command.move owner (.int i) (.int j)).run.outcome s = (r, t) ∧
        s.Moves owner xs i j ys t ∧ (s.CanSave → r = Command.moveReply owner xs[i]) ∧
        ∃ r' u, (Command.move owner (.int j) (.int i)).run.outcome t = (r', u) ∧
          u.schema = s.schema ∧ (t.CanSave → r' = Command.moveReply owner xs[i])) ∧
    ∀ k l : Int, ¬ (0 ≤ k ∧ k < xs.length) ∨ ¬ (0 ≤ l ∧ l < xs.length) →
      (∀ m ∈ [k, l], (0 ≤ m ∧ m < xs.length) ∨ xs.length = 0 ∨
        (integerText? m).isSome = true) →
      ∃ o, (Command.move owner (.int k) (.int l)).run.outcome s = (.ok (.outcome o), s) ∧
        o.ok = false ∧ o.code = .outOfRange := by
  have hsound := hs.isSound Value.Domain.isClosed_json fun _ _ h => h
  refine ⟨fun i j hi hj hij => ?_, fun k l hout hwritten => ?_⟩
  · obtain ⟨r, t, hrun⟩ : ∃ r t, (Command.move owner (.int i) (.int j)).run.outcome s = (r, t) :=
      ⟨_, _, rfl⟩
    obtain ⟨hschema, hanswer⟩ := (Editing.move_moves hsound h hi hj hij).outcome hrun
    have ht : t.IsSound .json := (hs.command (by cases owner <;> trivial) hrun).isSound
      Value.Domain.isClosed_json fun _ _ h => h
    have hmoves := hsound.moves h hi hj hschema
    have hlength := length_moved hi hj
    have hi' : i < (moved xs i j).length := hlength.symm ▸ hi
    have hj' : j < (moved xs i j).length := hlength.symm ▸ hj
    have hsame : (moved xs i j)[j] = xs[i] := by
      have hthere := hmoves.there
      rwa [List.getElem?_eq_getElem hj', List.getElem?_eq_getElem hi, Option.some.injEq] at hthere
    obtain ⟨hback, hanswer'⟩ := Editing.move_moves ht hmoves.siblings hj' hi' hij.symm
    rw [moved_moved hi hj] at hback
    rw [hsame] at hanswer'
    exact ⟨_, r, t, hrun, hmoves, hanswer, _, _, rfl, hsound.schema_eq h hschema hback, hanswer'⟩
  · obtain ⟨⟨o, ho, hrefused⟩, hsame⟩ := Editing.move_refuses hsound h hout hwritten
    exact ⟨o, Prod.ext ho hsame, hrefused⟩

/-- The first of three fields in a section is moved to the end and back; a fourth position does not
exist. -/
theorem Store.moved_to_end_and_back :
    let s := Store.bare.after
      [.addField (.sectionField "a" [.textField "b", .textField "c", .textField "d"])]
    let owner := some (Value.text "a")
    ∃ xs ys t, ∃ h : 0 < xs.length, s.Siblings owner xs ∧ xs.length = 3 ∧
      (Command.move owner (.int 0) (.int 2)).run.outcome s = (Command.moveReply owner xs[0], t) ∧
      s.Moves owner xs 0 2 ys t ∧
      (∃ r u, (Command.move owner (.int 2) (.int 0)).run.outcome t = (r, u) ∧
        u.schema = s.schema) ∧
      ∃ o, (Command.move owner (.int 0) (.int 3)).run.outcome s = (.ok (.outcome o), s) ∧
        o.ok = false ∧ o.code = .outOfRange := by
  intro s owner
  have edited : s.Reachable (fun s c => c.Brings .json s) (.int 2) := by
    refine Store.reachable_of_brings (List.forall_mem_singleton.2 fun _ => ?_)
    refine Value.sectionField_isIn "a" ?_
    simp only [List.forall_mem_cons]
    exact ⟨Value.textField_isIn "b", Value.textField_isIn "c", Value.textField_isIn "d",
      List.forall_mem_nil _⟩
  have hsave : s.CanSave := Store.canSave_of_no_storage (by decide +kernel)
  have hfound : (s.find? (.text "a")).map (fun g => (g.isSection, g.children.length)) =
      some (true, 3) := by decide +kernel
  obtain ⟨g, found, hg⟩ := Option.map_eq_some_iff.1 hfound
  obtain ⟨hsection, hlength⟩ := Prod.mk.inj hg
  have hsiblings : s.Siblings owner (Forest.toValues g.children) := .children found hsection
  have hthree : (Forest.toValues g.children).length = 3 := (List.length_map _).trans hlength
  obtain ⟨hmove, hrefuse⟩ := Store.Reachable.moves_back edited hsiblings
  obtain ⟨ys, r, t, hrun, hmoves, hanswer, r', u, hrun', hback, -⟩ :=
    hmove 0 2 (by omega) (by omega) (by decide)
  obtain ⟨o, hout, hrefused⟩ := hrefuse 0 3 (.inr (by omega)) (by
    simp only [List.forall_mem_cons]
    exact ⟨.inl (by omega), .inr (.inr (Value.isSome_integerText? (by decide))),
      List.forall_mem_nil _⟩)
  exact ⟨_, ys, t, by omega, hsiblings, hthree, hanswer hsave ▸ hrun, hmoves, ⟨r', u, hrun', hback⟩, o,
    hout, hrefused⟩

/-- An array whose items are sections with two fields. -/
def Value.arrayOfPairs : Value :=
  .ofFields
    [("id", .text "a"), ("key", .text "a"), ("type", .text "array"), ("label", .text "a"),
      ("of", .sectionField "t" [.textField "b", .textField "c"])]

theorem Value.arrayOfPairs_isJson : Value.arrayOfPairs.IsJson := by
  refine Value.IsIn.ofFields (by simp) ?_
  simp only [List.forall_mem_cons]
  refine ⟨.text _, .text _, .text _, .text _, Value.sectionField_isIn "t" ?_, List.forall_mem_nil _⟩
  simp only [List.forall_mem_cons]
  exact ⟨Value.textField_isIn "b", Value.textField_isIn "c", List.forall_mem_nil _⟩

/-- The section that an array repeats has two children, but is not found, so they cannot be moved. -/
theorem Store.not_moved_in_repeated_section :
    let s := Store.bare.after [.addField .arrayOfPairs]
    s.Reachable (fun s c => c.Brings .json s) (.int 2) ∧
      (∃ g ∈ Forest.preorder true s.forest, g.id.equals (.text "t") = true ∧ g.isSection = true ∧
        g.children.length = 2) ∧
      ∃ o, ((Command.move (some (.text "t")) (.int 0) (.int 1)).run.outcome s).1 =
        .ok (.outcome o) ∧ o.ok = false ∧ o.code = .notFound := by
  intro s
  have hlisted : ((Forest.preorder true s.forest).any fun g =>
      g.id.equals (.text "t") && (g.isSection && g.children.length == 2)) = true := by
    decide +kernel
  have hmissing : s.find? (.text "t") = none :=
    Option.isNone_iff_eq_none.1 (by decide +kernel)
  have hrun : (Command.move (some (.text "t")) (.int 0) (.int 1)).run.Ends s fun r _ => r =
      .ok (.outcome (.failure .notFound "No field with id 't'" (.text "t") [])) := by
    refine (ends_map _).2 ?_
    unfold Editing.moveChild
    rw [ends_bind, ends_get, andThen_ok, Editing.section?, hmissing]
    rfl
  refine ⟨Store.reachable_of_brings (List.forall_mem_singleton.2 fun _ => Value.arrayOfPairs_isJson),
    ?_, _, hrun, rfl, rfl⟩
  obtain ⟨g, hg, h⟩ := List.any_eq_true.1 hlisted
  obtain ⟨hid, hrest⟩ := Bool.and_eq_true_iff.1 h
  obtain ⟨hsection, hlength⟩ := Bool.and_eq_true_iff.1 hrest
  exact ⟨g, hg, hid, hsection, beq_iff_eq.1 hlength⟩

end FormDesigner
