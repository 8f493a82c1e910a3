import FormDesigner.Proofs.Form.Spot
import FormDesigner.Proofs.Number.Decimal

/-!
# Names without brackets

The name of a spot begins with a key, and every item of an array adds its position in brackets and,
for a child of the item, a dot and another key. So it can be told from a name which keys and
positions it was made of, unless keys hold brackets themselves.
-/

namespace FormDesigner

namespace Form

open Expression (LimitSource)
open Value (gathered)

/-- A name goes on from its beginning with an opening bracket, if it goes on. -/
def GoesOn (start name : List Char) : Prop :=
  ∃ rest : List Char, name = start ++ rest ∧ ∀ c ∈ rest.head?, c = '['

theorem goesOn_self (name : List Char) : GoesOn name name :=
  ⟨[], (List.append_nil name).symm, fun c hc => by cases hc⟩

/-- What stands before the first bracket. -/
theorem takeWhile_of_goesOn {key rest : List Char} (hkey : '[' ∉ key)
    (hrest : ∀ c ∈ rest.head?, c = '[') : (key ++ rest).takeWhile (· ≠ '[') = key := by
  have hbefore : ∀ c ∈ key, decide (c ≠ '[') = true := fun c hc =>
    decide_eq_true fun h => hkey (h ▸ hc)
  rw [List.takeWhile_append_of_pos hbefore]
  cases rest with
  | nil => exact List.append_nil key
  | cons c rest =>
      obtain rfl := hrest c rfl
      rw [List.takeWhile_cons_of_neg (by decide), List.append_nil]

/-- Names that begin alike and go on from different keys differ. -/
theorem GoesOn.key_unique {start key key' name : List Char} (hkey : '[' ∉ key) (hkey' : '[' ∉ key')
    (h : GoesOn (start ++ key) name) (h' : GoesOn (start ++ key') name) : key = key' := by
  obtain ⟨rest, rfl, hrest⟩ := h
  obtain ⟨rest', heq, hrest'⟩ := h'
  rw [List.append_assoc, List.append_assoc, List.append_cancel_left_eq] at heq
  rw [← takeWhile_of_goesOn hkey hrest, heq, takeWhile_of_goesOn hkey' hrest']

theorem toList_itemName (name : String) (i : Nat) :
    (itemName name i).toList = name.toList ++ '[' :: (Nat.toDigits 10 i ++ [']']) := by
  simp [itemName, toString, Nat.repr]

/-- Names inside different items of one array differ. -/
theorem itemName_unique {name : String} {i j : Nat} {rest rest' : List Char}
    (h : (itemName name i).toList ++ rest = (itemName name j).toList ++ rest') : i = j := by
  have hdigits : ∀ n : Nat, ∀ rest : List Char,
      ((Nat.toDigits 10 n ++ ']' :: rest).takeWhile (· ≠ ']')) = Nat.toDigits 10 n := by
    intro n rest
    have hdigit : ∀ c ∈ Nat.toDigits 10 n, decide (c ≠ ']') = true := by
      intro c hc
      refine decide_eq_true fun h => ?_
      have := Nat.isDigit_of_mem_toDigits (by decide) (by decide) (h ▸ hc)
      exact absurd this (by decide)
    rw [List.takeWhile_append_of_pos hdigit, List.takeWhile_cons_of_neg (by decide),
      List.append_nil]
  have hrest : Nat.toDigits 10 i ++ ']' :: rest = Nat.toDigits 10 j ++ ']' :: rest' := by
    simpa [toList_itemName] using h
  rw [← Text.digitsValue_toDigits i, ← hdigits i rest, hrest, hdigits j rest',
    Text.digitsValue_toDigits]

/-- No key on a field or on anything that it owns holds an opening bracket. -/
def IsBracketFree (keys : List Value) : Prop := ∀ key, .text key ∈ keys → '[' ∉ key.toList

/-- A name that begins with one of some keys. -/
def IsUnder (start : String) (keys : List Value) (name : String) : Prop :=
  ∃ key, .text key ∈ keys ∧ GoesOn (start ++ key).toList name.toList

/-- The walk from a spot uses no name twice. All of its names go on from that of the spot or from a
key below its field. -/
structure IsDistinct (limits : LimitSource) (s : Spot) : Prop where
  nodup : ((s.walk limits).map Spot.name).Nodup
  names : ∀ t ∈ s.walk limits, GoesOn s.name.toList t.name.toList ∨
    IsUnder s.start (s.field.childValues.flatMap (gathered "key")) t.name

variable {limits : LimitSource} {s : Spot} {start name : String} {keys keys' : List Value}

theorem IsUnder.mono (h : IsUnder start keys name) (hkeys : keys ⊆ keys') :
    IsUnder start keys' name := by
  obtain ⟨key, hkey, hname⟩ := h
  exact ⟨key, hkeys hkey, hname⟩

/-- A name does not begin with keys of two kinds. -/
theorem IsUnder.false_of_disjoint (h : IsUnder start keys name) (h' : IsUnder start keys' name)
    (hkeys : IsBracketFree keys) (hkeys' : IsBracketFree keys') (hdisjoint : keys.Disjoint keys') :
    False := by
  obtain ⟨key, hkey, hname⟩ := h
  obtain ⟨key', hkey', hname'⟩ := h'
  rw [String.toList_append] at hname hname'
  have heq := hname.key_unique (hkeys key hkey) (hkeys' key' hkey') hname'
  obtain rfl := String.toList_inj.1 heq
  exact hdisjoint hkey hkey'

/-! ### Children -/

/-- All names in the walk from a child begin with a key of the child or below it. -/
theorem IsDistinct.isUnder {c : Value} (hc : c.Fits) (h : IsDistinct limits (s.child c))
    {t : Spot} (ht : t ∈ (s.child c).walk limits) : IsUnder s.start (c.gathered "key") t.name := by
  rw [Value.gathered_eq]
  rcases h.names t ht with h | h
  · obtain ⟨key, -, hkey⟩ := hc.key
    exact ⟨key, hkey ▸ List.mem_cons_self, keyText_eq hkey ▸ h⟩
  · exact h.mono fun key hkey => List.mem_cons_of_mem _ (List.mem_append_left _ hkey)

theorem isUnder_children {cs : List Value} (hfits : ∀ c ∈ cs, c.Fits)
    (hcs : ∀ c ∈ cs, IsDistinct limits (s.child c)) :
    ∀ t ∈ (cs.map s.child).flatMap (Spot.walk limits),
      IsUnder s.start (cs.flatMap (gathered "key")) t.name := by
  intro t ht
  obtain ⟨spot, hspot, ht⟩ := List.mem_flatMap.1 ht
  obtain ⟨c, hc, rfl⟩ := List.mem_map.1 hspot
  exact ((hcs c hc).isUnder (hfits c hc) ht).mono fun key hkey => List.mem_flatMap.2 ⟨c, hc, hkey⟩

/-- Fields with keys of their own are checked under names of their own. -/
theorem nodup_children {cs : List Value} (hfits : ∀ c ∈ cs, c.Fits)
    (hkeys : (cs.flatMap (gathered "key")).Nodup)
    (hfree : IsBracketFree (cs.flatMap (gathered "key")))
    (hcs : ∀ c ∈ cs, IsDistinct limits (s.child c)) :
    (((cs.map s.child).flatMap (Spot.walk limits)).map Spot.name).Nodup := by
  induction cs with
  | nil => exact List.nodup_nil
  | cons c cs ih =>
      obtain ⟨hc, hfitsRest⟩ := List.forall_mem_cons.1 hfits
      obtain ⟨hdistinct, hrest⟩ := List.forall_mem_cons.1 hcs
      rw [List.flatMap_cons] at hkeys hfree
      obtain ⟨-, hkeysRest, hdisjoint⟩ := List.nodup_append'.1 hkeys
      have hfreeHead : IsBracketFree (c.gathered "key") := fun key h =>
        hfree key (List.mem_append_left _ h)
      have hfreeRest : IsBracketFree (cs.flatMap (gathered "key")) := fun key h =>
        hfree key (List.mem_append_right _ h)
      rw [List.map_cons, List.flatMap_cons, List.map_append]
      refine List.nodup_append'.2 ⟨hdistinct.nodup, ih hfitsRest hkeysRest hfreeRest hrest, ?_⟩
      intro name hname hname'
      obtain ⟨t, ht, rfl⟩ := List.mem_map.1 hname
      obtain ⟨u, hu, heq⟩ := List.mem_map.1 hname'
      have hunder := isUnder_children hfitsRest hrest u hu
      rw [heq] at hunder
      exact (hdistinct.isUnder hc ht).false_of_disjoint hunder hfreeHead hfreeRest hdisjoint

/-! ### Items -/

/-- The names of an item and of everything inside it go on from the name of the item. -/
theorem IsDistinct.begins_with_item {template item : Value} {i : Nat} {spot t : Spot}
    (hspot : s.item? template (item, i) = some spot) (h : IsDistinct limits spot)
    (ht : t ∈ spot.walk limits) :
    ∃ rest, t.name.toList = (itemName s.name i).toList ++ rest := by
  obtain ⟨-, hname, hstart⟩ := Spot.item?_eq_some hspot
  rcases h.names t ht with h | ⟨key, -, h⟩
  · obtain ⟨rest, h, -⟩ := h
    exact ⟨rest, hname ▸ h⟩
  · obtain ⟨rest, h, -⟩ := h
    rw [hstart, String.toList_append, String.toList_append, List.append_assoc,
      List.append_assoc] at h
    exact ⟨_, h⟩

/-- The items of an array are checked under names of their own, which go on from that of the array.
-/
theorem nodup_items {template : Value} {entries : List (Value × Nat)}
    (hentries : (entries.map Prod.snd).Nodup)
    (hitems : ∀ entry ∈ entries, ∀ spot ∈ s.item? template entry, IsDistinct limits spot) :
    (((entries.filterMap (s.item? template)).flatMap (Spot.walk limits)).map Spot.name).Nodup ∧
      ∀ t ∈ (entries.filterMap (s.item? template)).flatMap (Spot.walk limits),
        ∃ i ∈ entries.map Prod.snd, ∃ rest, t.name.toList = (itemName s.name i).toList ++ rest := by
  induction entries with
  | nil => exact ⟨List.nodup_nil, fun _ h => by cases h⟩
  | cons entry entries ih =>
      obtain ⟨item, i⟩ := entry
      rw [List.map_cons, List.nodup_cons] at hentries
      obtain ⟨hi, hrest⟩ := hentries
      obtain ⟨hhead, htail⟩ := List.forall_mem_cons.1 hitems
      obtain ⟨ihNodup, ihNames⟩ := ih hrest htail
      have hlater : ∀ t ∈ (entries.filterMap (s.item? template)).flatMap (Spot.walk limits),
          ∃ j ∈ i :: entries.map Prod.snd, ∃ rest,
            t.name.toList = (itemName s.name j).toList ++ rest := fun t ht =>
        let ⟨j, hj, h⟩ := ihNames t ht
        ⟨j, List.mem_cons_of_mem _ hj, h⟩
      cases hspot : s.item? template (item, i) with
      | none =>
          rw [List.filterMap_cons_none hspot]
          exact ⟨ihNodup, hlater⟩
      | some spot =>
          have hdistinct := hhead spot hspot
          rw [List.filterMap_cons_some hspot, List.flatMap_cons, List.map_append]
          refine ⟨List.nodup_append'.2 ⟨hdistinct.nodup, ihNodup, ?_⟩,
            List.forall_mem_append.2 ⟨fun t ht => ?_, hlater⟩⟩
          · intro name hname hname'
            obtain ⟨t, ht, rfl⟩ := List.mem_map.1 hname
            obtain ⟨u, hu, heq⟩ := List.mem_map.1 hname'
            obtain ⟨rest, h⟩ := hdistinct.begins_with_item hspot ht
            obtain ⟨j, hj, rest', h'⟩ := ihNames u hu
            rw [heq, h] at h'
            exact hi (itemName_unique h' ▸ hj)
          · exact ⟨i, List.mem_cons_self, hdistinct.begins_with_item hspot ht⟩

/-! ### Walks -/

/-- The names below a spot do not go on from its own name: its key is none of those below its field,
or they go on with a dot. -/
def IsApart (s : Spot) : Prop :=
  ∀ name, GoesOn s.name.toList name.toList →
    ¬ IsUnder s.start (s.field.childValues.flatMap (gathered "key")) name

theorem isApart_child {c : Value} (hc : c.Fits) (hkeys : (c.gathered "key").Nodup)
    (hfree : IsBracketFree (c.gathered "key")) : IsApart (s.child c) := by
  obtain ⟨key, -, hkey⟩ := hc.key
  rw [Value.gathered_eq, hkey] at hkeys hfree
  rintro name hname ⟨key', hkey', hname'⟩
  have hbelow := List.mem_append_left (c.fieldTemplate.flatMap (gathered "key")) hkey'
  change GoesOn (s.start ++ keyText c).toList name.toList at hname
  rw [keyText_eq hkey, String.toList_append] at hname
  rw [Spot.child, String.toList_append] at hname'
  have heq := hname.key_unique (hfree key List.mem_cons_self)
    (hfree key' (List.mem_cons_of_mem _ hbelow)) hname'
  obtain rfl := String.toList_inj.1 heq
  exact (List.nodup_cons.1 hkeys).1 hbelow

theorem isApart_item {template : Value} {entry : Value × Nat} {spot : Spot}
    (hspot : s.item? template entry = some spot) : IsApart spot := by
  obtain ⟨-, hname, hstart⟩ := Spot.item?_eq_some hspot
  rintro name ⟨rest, hrest, hhead⟩ ⟨key, -, rest', hrest', -⟩
  rw [hstart, ← hname, String.toList_append, String.toList_append, List.append_assoc,
    List.append_assoc, hrest, List.append_cancel_left_eq] at hrest'
  rw [hrest'] at hhead
  exact absurd (hhead '.' rfl) (by decide)

theorem isDistinct_of_parts_eq_nil (h : s.parts limits = []) : IsDistinct limits s := by
  have hwalk : s.walk limits = [s] := by rw [Spot.walk_eq, h, List.flatMap_nil]
  refine ⟨hwalk ▸ List.nodup_singleton _, hwalk ▸ fun t ht => ?_⟩
  obtain rfl := List.mem_singleton.1 ht
  exact .inl (goesOn_self _)

theorem isDistinct_of_section (hapart : IsApart s) (hfits : s.field.Fits)
    (hkeys : (s.field.childValues.flatMap (gathered "key")).Nodup)
    (hfree : IsBracketFree (s.field.childValues.flatMap (gathered "key")))
    (hparts : s.parts limits = s.field.childValues.map s.child)
    (hchildren : ∀ c ∈ s.field.childValues, IsDistinct limits (s.child c)) :
    IsDistinct limits s := by
  have hunder := isUnder_children hfits.children hchildren
  have hnodup := nodup_children hfits.children hkeys hfree hchildren
  rw [← hparts] at hunder hnodup
  constructor
  · rw [Spot.walk_eq, List.map_cons, List.nodup_cons]
    refine ⟨fun hname => ?_, hnodup⟩
    obtain ⟨t, ht, heq⟩ := List.mem_map.1 hname
    exact hapart s.name (goesOn_self _) (heq ▸ hunder t ht)
  · intro t ht
    rw [Spot.walk_eq] at ht
    rcases List.mem_cons.1 ht with rfl | ht
    · exact .inl (goesOn_self _)
    · exact .inr (hunder t ht)

theorem isDistinct_of_array {template : Value}
    (hparts : s.parts limits = s.items.zipIdx.filterMap (s.item? template))
    (hitems : ∀ entry, ∀ spot ∈ s.item? template entry, IsDistinct limits spot) :
    IsDistinct limits s := by
  have hentries : (s.items.zipIdx.map Prod.snd).Nodup := by
    rw [List.zipIdx_map_snd]
    exact List.nodup_range'
  obtain ⟨hnodup, hnames⟩ := nodup_items hentries fun entry _ => hitems entry
  rw [← hparts] at hnodup hnames
  constructor
  · rw [Spot.walk_eq, List.map_cons, List.nodup_cons]
    refine ⟨fun hname => ?_, hnodup⟩
    obtain ⟨t, ht, heq⟩ := List.mem_map.1 hname
    obtain ⟨i, -, rest, h⟩ := hnames t ht
    have hlength := congrArg List.length h
    rw [heq, toList_itemName, List.length_append, List.length_append, List.length_cons] at hlength
    omega
  · intro t ht
    rw [Spot.walk_eq] at ht
    rcases List.mem_cons.1 ht with rfl | ht
    · exact .inl (goesOn_self _)
    · obtain ⟨i, -, rest, h⟩ := hnames t ht
      rw [toList_itemName, List.append_assoc] at h
      exact .inl ⟨_, h, fun c hc => (Option.some.inj hc).symm⟩

/-- By induction on what the field owns. The children of a section are told apart by their keys, the
items of an array by their positions. -/
theorem isDistinct_of_nodup {v : Value} (hfits : v.Fits) (hkeys : (v.gathered "key").Nodup)
    (hfree : IsBracketFree (v.gathered "key")) :
    ∀ s : Spot, s.field = v → IsApart s → IsDistinct limits s := by
  induction v using Value.owned_induction with
  | node v ihChildren ihTemplate =>
      rintro s rfl hapart
      rw [Value.gathered_eq] at hkeys hfree
      have hbelow := (List.nodup_cons.1 hkeys).2
      by_cases hshown : isShown limits s.field s.values = .ok true
      swap
      · refine isDistinct_of_parts_eq_nil ?_
        unfold Spot.parts
        split
        · exact absurd ‹_› hshown
        · rfl
      obtain ⟨hkeysChildren, hkeysTemplate, -⟩ := List.nodup_append'.1 (List.nodup_cons.1 hkeys).2
      have hfreeChildren : IsBracketFree (s.field.childValues.flatMap (gathered "key")) :=
        fun key h => hfree key (List.mem_cons_of_mem _ (List.mem_append_left _ h))
      by_cases hsection : s.field.isSection = true
      · have hparts : s.parts limits = s.field.childValues.map s.child := by
          rw [Spot.parts, hshown, Value.templateValue?_of_isSection hsection]
          exact List.append_nil _
        refine isDistinct_of_section hapart hfits hkeysChildren hfreeChildren hparts fun c hc => ?_
        have hkeysChild := (List.nodup_flatMap.1 hkeysChildren).1 c hc
        have hfreeChild : IsBracketFree (c.gathered "key") := fun key h =>
          hfreeChildren key (List.mem_flatMap.2 ⟨c, hc, h⟩)
        have hfitsChild := hfits.children c hc
        exact ihChildren c hc hfitsChild hkeysChild hfreeChild (s.child c) rfl
          (isApart_child hfitsChild hkeysChild hfreeChild)
      cases ht : s.field.templateValue? with
      | none =>
          refine isDistinct_of_parts_eq_nil ?_
          rw [Spot.parts, hshown, ht, Value.childValues, if_neg hsection]
          rfl
      | some template =>
          have hparts : s.parts limits = s.items.zipIdx.filterMap (s.item? template) := by
            rw [Spot.parts, hshown, ht, Value.childValues, if_neg hsection]
            exact List.flatMap_singleton _ _
          have hfitsTemplate := hfits.template template ht
          have hfield : s.field.fieldTemplate = [template] := by
            rw [Value.fieldTemplate, ht, Option.filter_some_pos hfitsTemplate.isMap]
            rfl
          rw [hfield, List.flatMap_singleton] at hkeysTemplate hfree
          have hfreeTemplate : IsBracketFree (template.gathered "key") := fun key h =>
            hfree key (List.mem_cons_of_mem _ (List.mem_append_right _ h))
          refine isDistinct_of_array hparts fun entry spot hspot => ?_
          exact ihTemplate template ht hfitsTemplate hkeysTemplate hfreeTemplate spot
            (Spot.item?_eq_some hspot).1 (isApart_item hspot)

/-- Fields with bracket-free keys are all checked under names of their own. -/
theorem nodup_spots {schema : Value} {values : Entries} (hshape : Schema.HasShape schema)
    (hkeys : ((Schema.rootFields schema).flatMap (gathered "key")).Nodup)
    (hfree : IsBracketFree ((Schema.rootFields schema).flatMap (gathered "key"))) :
    ((spots limits schema values).map Spot.name).Nodup := by
  have hroots : roots schema values =
      (Schema.rootFields schema).map (Spot.child ⟨schema, values, "", ""⟩) := by
    refine List.map_congr_left fun f _ => ?_
    rw [Spot.child, String.empty_append]
  rw [spots, hroots]
  refine nodup_children hshape.fits hkeys hfree fun f hf => ?_
  have hkeysRoot := (List.nodup_flatMap.1 hkeys).1 f hf
  have hfreeRoot : IsBracketFree (f.gathered "key") := fun key h =>
    hfree key (List.mem_flatMap.2 ⟨f, hf, h⟩)
  exact isDistinct_of_nodup (hshape.fits f hf) hkeysRoot hfreeRoot _ rfl
    (isApart_child (hshape.fits f hf) hkeysRoot hfreeRoot)

end Form

end FormDesigner
