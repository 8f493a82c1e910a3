import FormDesigner.Proofs.Form.Report

/-!
# Which fields of a form are shown

Two walks go over the fields of a form. One lists the keys of those that are shown, the other checks
them and notes what is wrong under their names. Both go into a section where it is shown; the second
also goes into the items of arrays. Where no key holds a bracket, what is noted under a key is noted
for the field with that key, since the names of items hold brackets. So the walks agree: a field
inside sections is noted exactly if the sections are all listed, and nothing is wrong with a field
that is not listed.
-/

namespace FormDesigner

namespace Form

open Expression (LimitSource)
open Value (gathered owned_induction)
open FormDesigner.Field (ofValue)
open Result

/-- A field that is reached from some fields through sections only, with the sections that enclose
it, the outermost first. -/
inductive Enclosed : List Value → List Value → Value → Prop
  | here {fs : List Value} {f : Value} (mem : f ∈ fs) : Enclosed fs [] f
  | inside {fs owners : List Value} {s f : Value} (mem : s ∈ fs) (isSection : s.isSection = true)
      (below : Enclosed s.childValues owners f) : Enclosed fs (s :: owners) f

namespace Enclosed

variable {fs gs owners owners' : List Value} {f g s : Value}

theorem mono (h : Enclosed fs owners f) (hsub : fs ⊆ gs) : Enclosed gs owners f := by
  cases h with
  | here mem => exact .here (hsub mem)
  | inside mem isSection below => exact .inside (hsub mem) isSection below

/-- The children of a section are enclosed by it in addition. -/
theorem child (h : Enclosed fs owners s) (hs : s.isSection = true) (hf : f ∈ s.childValues) :
    Enclosed fs (owners ++ [s]) f := by
  induction h with
  | here mem => exact .inside mem hs (.here hf)
  | inside mem isSection _ ih => exact .inside mem isSection (ih hs hf)

/-- A section that encloses a field is itself enclosed by some of the others. -/
theorem owner (h : Enclosed fs owners f) (hs : s ∈ owners) :
    ∃ outer, Enclosed fs outer s ∧ outer ⊆ owners := by
  induction h with
  | here mem => cases hs
  | @inside fs owners t f mem isSection below ih =>
      rcases List.mem_cons.1 hs with rfl | hs
      · exact ⟨[], .here mem, List.nil_subset _⟩
      · obtain ⟨outer, houter, hsub⟩ := ih hs
        exact ⟨t :: outer, .inside mem isSection houter, List.cons_subset_cons t hsub⟩

theorem fits (h : Enclosed fs owners f) (hfs : ∀ f ∈ fs, f.Fits) : f.Fits := by
  induction h with
  | here mem => exact hfs _ mem
  | inside mem _ _ ih => exact ih (hfs _ mem).children

theorem mem_owned (h : Enclosed fs owners f) : f ∈ fs.flatMap Value.owned := by
  induction h with
  | here mem =>
      refine List.mem_flatMap.2 ⟨_, mem, ?_⟩
      rw [Value.owned_eq]
      exact List.mem_cons_self
  | inside mem _ _ ih =>
      refine List.mem_flatMap.2 ⟨_, mem, ?_⟩
      rw [Value.owned_eq]
      exact List.mem_cons_of_mem _ (List.mem_append_left _ ih)

theorem mem_gathered (h : Enclosed fs owners f) :
    f.getOrNull "key" ∈ fs.flatMap (gathered "key") := by
  obtain ⟨root, hroot, hf⟩ := List.mem_flatMap.1 h.mem_owned
  exact List.mem_flatMap.2 ⟨root, hroot, List.mem_map.2 ⟨f, hf, rfl⟩⟩

theorem key_mem_gathered (v : Value) : v.getOrNull "key" ∈ v.gathered "key" := by
  rw [Value.gathered_eq]
  exact List.mem_cons_self

/-- Fields with keys of their own have no key below both of them. -/
theorem eq_of_mem_gathered (hkeys : (fs.flatMap (gathered "key")).Nodup) (hf : f ∈ fs)
    (hg : g ∈ fs) {key : Value} (hkf : key ∈ f.gathered "key") (hkg : key ∈ g.gathered "key") :
    f = g := by
  have : Std.Symm (Function.onFun List.Disjoint (gathered "key")) :=
    ⟨fun _ _ h => List.Disjoint.symm h⟩
  by_contra hne
  exact (List.nodup_flatMap.1 hkeys).2.forall hf hg hne hkf hkg

theorem mem_gathered_owner (hs : s.isSection = true) (h : Enclosed s.childValues owners f) :
    f.getOrNull "key" ∈ s.gathered "key" := by
  rw [Value.gathered_of_isSection hs]
  exact List.mem_cons_of_mem _ h.mem_gathered

theorem key_ne_owner (hkeys : (s.gathered "key").Nodup) (hs : s.isSection = true)
    (h : Enclosed s.childValues owners f) : s.getOrNull "key" ≠ f.getOrNull "key" := by
  rw [Value.gathered_of_isSection hs] at hkeys
  intro heq
  exact (List.nodup_cons.1 hkeys).1 (heq ▸ h.mem_gathered)

/-- Among fields with keys of their own, a key belongs to one field, in one place. -/
theorem unique (h : Enclosed fs owners f) (h' : Enclosed fs owners' g)
    (hkeys : (fs.flatMap (gathered "key")).Nodup) (heq : f.getOrNull "key" = g.getOrNull "key") :
    owners = owners' ∧ f = g := by
  have hown : ∀ v ∈ fs, (v.gathered "key").Nodup := (List.nodup_flatMap.1 hkeys).1
  induction h generalizing owners' with
  | @here fs f mem =>
      have hkey := heq ▸ key_mem_gathered f
      cases h' with
      | here mem' =>
          exact ⟨rfl, eq_of_mem_gathered hkeys mem mem' hkey (key_mem_gathered g)⟩
      | inside mem' isSection below =>
          obtain rfl := eq_of_mem_gathered hkeys mem mem' hkey (mem_gathered_owner isSection below)
          exact absurd heq (key_ne_owner (hown f mem) isSection below)
  | @inside fs owners s f mem isSection below ih =>
      have hkey := heq ▸ mem_gathered_owner isSection below
      cases h' with
      | here mem' =>
          obtain rfl := eq_of_mem_gathered hkeys mem mem' hkey (key_mem_gathered g)
          exact absurd heq.symm (key_ne_owner (hown s mem) isSection below)
      | inside mem' isSection' below' =>
          have hkey' := mem_gathered_owner isSection' below'
          obtain rfl := eq_of_mem_gathered hkeys mem mem' hkey hkey'
          have hbelow := hown s mem
          rw [Value.gathered_of_isSection isSection] at hbelow
          have hchildren := (List.nodup_cons.1 hbelow).2
          obtain ⟨rfl, rfl⟩ := ih below' hchildren heq (List.nodup_flatMap.1 hchildren).1
          exact ⟨rfl, rfl⟩

end Enclosed

/-! ### The keys that are shown -/

/-- A field inside sections that are all shown. -/
def IsOpen (limits : LimitSource) (values : Entries) (fs : List Value) (f : Value) : Prop :=
  ∃ owners, Enclosed fs owners f ∧ ∀ s ∈ owners, isShown limits s values = .ok true

variable {limits : LimitSource} {values : Entries} {fs gs : List Value} {f s v : Value}

theorem isOpen_iff : IsOpen limits values fs f ↔ f ∈ fs ∨ ∃ s ∈ fs, s.isSection = true ∧
    isShown limits s values = .ok true ∧ IsOpen limits values s.childValues f := by
  constructor
  · rintro ⟨owners, h, hshown⟩
    cases h with
    | here mem => exact .inl mem
    | inside mem isSection below =>
        obtain ⟨hs, hshown⟩ := List.forall_mem_cons.1 hshown
        exact .inr ⟨_, mem, isSection, hs, _, below, hshown⟩
  · rintro (mem | ⟨s, mem, isSection, hs, owners, below, hshown⟩)
    · exact ⟨[], .here mem, List.forall_mem_nil _⟩
    · exact ⟨s :: owners, .inside mem isSection below, List.forall_mem_cons.2 ⟨hs, hshown⟩⟩

theorem IsOpen.mono (h : IsOpen limits values fs f) (hsub : fs ⊆ gs) :
    IsOpen limits values gs f := by
  obtain ⟨owners, h, hshown⟩ := h
  exact ⟨owners, h.mono hsub, hshown⟩

/-- A field that is shown, inside sections that are all shown. -/
def IsListed (limits : LimitSource) (values : Entries) (fs : List Value) (f : Value) : Prop :=
  IsOpen limits values fs f ∧ isShown limits f values = .ok true

theorem isListed_cons_iff : IsListed limits values (v :: fs) f ↔
    IsListed limits values [v] f ∨ IsListed limits values fs f := by
  constructor
  · rintro ⟨hopen, hf⟩
    rcases isOpen_iff.1 hopen with mem | ⟨s, mem, hinside⟩
    · rcases List.mem_cons.1 mem with rfl | mem
      · exact .inl ⟨isOpen_iff.2 (.inl (List.mem_singleton_self _)), hf⟩
      · exact .inr ⟨isOpen_iff.2 (.inl mem), hf⟩
    · rcases List.mem_cons.1 mem with rfl | mem
      · exact .inl ⟨isOpen_iff.2 (.inr ⟨s, List.mem_singleton_self _, hinside⟩), hf⟩
      · exact .inr ⟨isOpen_iff.2 (.inr ⟨s, mem, hinside⟩), hf⟩
  · rintro (⟨hopen, hf⟩ | ⟨hopen, hf⟩)
    · exact ⟨hopen.mono (by simp), hf⟩
    · exact ⟨hopen.mono (List.subset_cons_self _ _), hf⟩

theorem isListed_singleton_iff : IsListed limits values [v] f ↔
    isShown limits v values = .ok true ∧
      (f = v ∨ v.isSection = true ∧ IsListed limits values v.childValues f) := by
  unfold IsListed
  rw [isOpen_iff]
  simp only [List.mem_singleton, exists_eq_left]
  constructor
  · rintro ⟨rfl | ⟨hsection, hv, hopen⟩, hf⟩
    · exact ⟨hf, .inl rfl⟩
    · exact ⟨hv, .inr ⟨hsection, hopen, hf⟩⟩
  · rintro ⟨hv, rfl | ⟨hsection, hopen, hf⟩⟩
    · exact ⟨.inl rfl, hv⟩
    · exact ⟨.inr ⟨hsection, hv, hopen⟩, hf⟩

/-- A walk adds the keys of the fields that are listed to those that it has. -/
def AddsKeys (limits : LimitSource) (values : Entries) (fs : List Value) (keys : List Value)
    (walk : Except Failure (List Value)) : Prop :=
  ∃ keys', walk = .ok keys' ∧
    ∀ key, key ∈ keys' ↔ key ∈ keys ∨ ∃ f, IsListed limits values fs f ∧ f.getOrNull "key" = key

theorem addsKeys_visibleAll (hfs : ∀ f ∈ fs, ∀ keys,
      AddsKeys limits values [f] keys (visibleIn limits values keys (ofValue f)))
    (keys : List Value) :
    AddsKeys limits values fs keys (visibleAll limits values keys (fs.map ofValue)) := by
  induction fs generalizing keys with
  | nil =>
      refine ⟨keys, by rw [List.map_nil, visibleAll], fun key => (or_iff_left ?_).symm⟩
      rintro ⟨f, ⟨hopen, -⟩, -⟩
      simpa using isOpen_iff.1 hopen
  | cons f fs ih =>
      obtain ⟨hf, hfs⟩ := List.forall_mem_cons.1 hfs
      obtain ⟨keys₁, hkeys₁, hmem₁⟩ := hf keys
      obtain ⟨keys₂, hkeys₂, hmem₂⟩ := ih hfs keys₁
      refine ⟨keys₂, ?_, fun key => ?_⟩
      · rw [List.map_cons, visibleAll, hkeys₁]
        exact hkeys₂
      · have hlisted (g : Value) : IsListed limits values (f :: fs) g ↔
            IsListed limits values [f] g ∨ IsListed limits values fs g := isListed_cons_iff
        simp only [hmem₂, hmem₁, hlisted, or_and_right, exists_or, or_assoc]

theorem entry_of_text {n s : String} (h : v.getOrNull n = .text s) :
    v.entry n = .ok (.text s) := by
  rw [Value.entry_eq_ok_iff]
  unfold Value.getOrNull at h
  cases hget : v.get? n with
  | none =>
      rw [hget] at h
      cases h
  | some w =>
      rw [hget, Option.getD_some] at h
      rw [h]

theorem entry_key_of_fits (h : v.Fits) : v.entry "key" = .ok (v.getOrNull "key") := by
  obtain ⟨key, -, hkey⟩ := h.key
  rw [hkey, entry_of_text hkey]

/-- A key is added unless it is there already. -/
theorem mem_added_iff {name : String} {keys : List Value} {key : Value} :
    key ∈ (if (Value.text name).among keys then keys else keys ++ [.text name]) ↔
      key ∈ keys ∨ .text name = key := by
  by_cases hname : (Value.text name).among keys = true
  · rw [if_pos hname]
    refine (or_iff_left_of_imp ?_).symm
    rintro rfl
    exact Value.among_text_iff.1 hname
  · rw [if_neg hname, List.mem_append, List.mem_singleton, eq_comm (a := key)]

/-- By induction on what the field owns. A hidden field adds nothing; one that is shown adds its
key, and a section then what its children add. -/
theorem addsKeys_visibleIn (h : v.Fits)
    (hchecked : ∀ f, IsOpen limits values [v] f → ∃ b, isShown limits f values = .ok b)
    (keys : List Value) :
    AddsKeys limits values [v] keys (visibleIn limits values keys (ofValue v)) := by
  induction v using owned_induction generalizing keys with
  | node v ih _ =>
      obtain ⟨shown, hshown⟩ := hchecked v (isOpen_iff.2 (.inl (List.mem_singleton_self v)))
      rw [AddsKeys, Field.ofValue_eq, visibleIn, demandMap_of_fits h, ok_bind, hshown, ok_bind]
      simp only [isListed_singleton_iff, hshown]
      cases shown with
      | false => exact ⟨keys, rfl, fun key => by simp⟩
      | true =>
          obtain ⟨name, -, hname⟩ := h.key
          rw [if_pos rfl, entry_key_of_fits h, hname, ok_bind,
            if_neg (by simp [Value.isHashable])]
          by_cases hsection : v.isSection = true
          · have hchildren : ∀ c ∈ v.childValues, ∀ keys,
                AddsKeys limits values [c] keys (visibleIn limits values keys (ofValue c)) := by
              intro c hc
              refine ih c hc (h.children c hc) fun f hf => hchecked f ?_
              have hmem : v ∈ [v] := List.mem_singleton_self v
              exact isOpen_iff.2 (.inr ⟨v, hmem, hsection, hshown, hf.mono (by simpa using hc)⟩)
            obtain ⟨keys', hkeys', hmem⟩ := addsKeys_visibleAll hchildren
              (if (Value.text name).among keys then keys else keys ++ [.text name])
            refine ⟨keys', ?_, fun key => ?_⟩
            · rw [if_pos hsection, demandItems_of_fits h hsection]
              exact hkeys'
            · rw [hmem, mem_added_iff]
              simp [hsection, or_and_right, exists_or, hname, or_assoc]
          · refine ⟨_, if_neg hsection, fun key => ?_⟩
            rw [mem_added_iff]
            simp [hsection, hname]

/-! ### What is checked under a key -/

variable {schema : Value} {t : Spot}

theorem IsOpen.child (h : IsOpen limits values fs s) (hs : s.isSection = true)
    (hshown : isShown limits s values = .ok true) (hf : f ∈ s.childValues) :
    IsOpen limits values fs f := by
  obtain ⟨owners, h, howners⟩ := h
  refine ⟨owners ++ [s], h.child hs hf, ?_⟩
  exact List.forall_mem_append.2 ⟨howners, List.forall_mem_singleton.2 hshown⟩

/-- The spot of a field that no array stands between. -/
def ownSpot (values : Entries) (f : Value) : Spot := ⟨f, values, keyText f, ""⟩

theorem Enclosed.visited {owners : List Value} (h : Enclosed fs owners f)
    (howners : ∀ s ∈ owners, isShown limits s values = .ok true)
    (hfs : ∀ f ∈ fs, Visited limits schema values (ownSpot values f)) :
    Visited limits schema values (ownSpot values f) := by
  induction h with
  | here mem => exact hfs _ mem
  | @inside fs owners s f mem isSection below ih =>
      obtain ⟨hs, howners⟩ := List.forall_mem_cons.1 howners
      refine ih howners fun c hc => (hfs s mem).inside ?_
      have hchild : (ownSpot values s).child c = ownSpot values c := by
        rw [Spot.child, ownSpot, ownSpot, String.empty_append]
      rw [← hchild, Spot.parts, ownSpot, hs]
      exact List.mem_append_left _ (List.mem_map_of_mem hc)

/-- A spot is that of a field inside shown sections, or has a bracket in its name, as everything
that it leads to. -/
theorem Visited.isOpen_or_bracket {s : Spot} (h : Visited limits schema values s) :
    (IsOpen limits values (Schema.rootFields schema) s.field ∧ s = ownSpot values s.field) ∨
      '[' ∈ s.name.toList ∧ '[' ∈ s.start.toList := by
  induction h with
  | @root s hroot =>
      obtain ⟨f, hf, rfl⟩ := List.mem_map.1 hroot
      exact .inl ⟨isOpen_iff.2 (.inl hf), rfl⟩
  | @inside s t _ part ih =>
      obtain ⟨hshown, ⟨hsection, c, hc, rfl⟩ | ⟨u, -, i, -, hname, hstart⟩⟩ := Spot.part_cases part
      · rcases ih with ⟨hopen, hs⟩ | ⟨-, hstart⟩
        · rw [hs] at hshown
          refine .inl ⟨hopen.child hsection hshown hc, ?_⟩
          rw [hs, Spot.child, ownSpot, ownSpot, String.empty_append]
        · right
          rw [Spot.child, String.toList_append]
          exact ⟨List.mem_append_left _ hstart, hstart⟩
      · right
        rw [hname, hstart, String.toList_append, toList_itemName]
        simp

theorem IsOpen.visited (h : IsOpen limits values (Schema.rootFields schema) f) :
    Visited limits schema values (ownSpot values f) := by
  obtain ⟨owners, h, howners⟩ := h
  exact h.visited howners fun g hg => .root (List.mem_map_of_mem hg)

theorem IsOpen.fits (h : IsOpen limits values fs f) (hfs : ∀ f ∈ fs, f.Fits) : f.Fits := by
  obtain ⟨owners, h, -⟩ := h
  exact h.fits hfs

/-- Where no key holds a bracket, what is noted under a name without one is the message of a field
inside shown sections that has the name as its key. -/
theorem mem_report_iff {r : Report} {name : String} {message : Option String}
    (hshape : Schema.HasShape schema)
    (hkeys : ((Schema.rootFields schema).flatMap (gathered "key")).Nodup)
    (hfree : IsBracketFree ((Schema.rootFields schema).flatMap (gathered "key")))
    (hr : HoldsLast limits (spots limits schema values) r) (hname : '[' ∉ name.toList) :
    (.text name, message) ∈ r ↔ ∃ f, IsOpen limits values (Schema.rootFields schema) f ∧
      f.getOrNull "key" = .text name ∧ fieldMessage? limits f values = .ok message := by
  rw [hr.mem_iff]
  constructor
  · rintro ⟨t, m, hlast, hm, heq⟩
    obtain ⟨hnames, rfl⟩ := Prod.mk.inj heq
    obtain rfl := Value.text.inj hnames
    rcases (mem_spots_iff.1 hlast.mem).isOpen_or_bracket with ⟨hopen, ht⟩ | ⟨hbracket, -⟩
    · rw [ht] at hm ⊢
      obtain ⟨key, -, hkey⟩ := (hopen.fits hshape.fits).key
      exact ⟨t.field, hopen, by rw [ownSpot, keyText_eq hkey, hkey], hm⟩
    · exact absurd hbracket hname
  · rintro ⟨f, hopen, hkey, hm⟩
    have hspot := mem_spots_iff.2 hopen.visited
    have hlast := isLast_of_nodup (nodup_spots hshape hkeys hfree) hspot
    exact ⟨ownSpot values f, message, hlast, hm, by rw [ownSpot, keyText_eq hkey]⟩

/-- A report settles for every field inside shown sections whether it is shown. -/
theorem HoldsLast.checked_of_isOpen {r : Report} (hshape : Schema.HasShape schema)
    (hr : HoldsLast limits (spots limits schema values) r)
    (h : IsOpen limits values (Schema.rootFields schema) f) :
    (∃ b, isShown limits f values = .ok b) ∧ ∃ m, fieldMessage? limits f values = .ok m := by
  obtain ⟨m, hm⟩ := hr.checked _ (mem_spots_iff.2 h.visited)
  refine ⟨?_, m, hm⟩
  cases hshown : isShown limits f values with
  | ok b => exact ⟨b, rfl⟩
  | error e =>
      have hfails := fieldMessage?_of_isShown_eq_error (h.fits hshape.fits) hshown
      cases hm.symm.trans hfails

/-- Where it is settled for every field inside shown sections whether it is shown, those that are
shown are listed. -/
theorem exists_visibleKeys (hshape : Schema.HasShape schema)
    (hchecked : ∀ f, IsOpen limits values (Schema.rootFields schema) f →
      ∃ b, isShown limits f values = .ok b) :
    ∃ keys, visibleKeys limits schema values = .ok keys ∧ ∀ key, key ∈ keys ↔
      ∃ f, IsListed limits values (Schema.rootFields schema) f ∧ f.getOrNull "key" = key := by
  have hroots : ∀ f ∈ Schema.rootFields schema, ∀ keys,
      AddsKeys limits values [f] keys (visibleIn limits values keys (ofValue f)) := by
    intro f hf
    refine addsKeys_visibleIn (hshape.fits f hf) fun g hg => hchecked g (hg.mono ?_)
    simpa using hf
  obtain ⟨keys, hkeys, hmem⟩ := addsKeys_visibleAll hroots []
  refine ⟨keys, ?_, fun key => ?_⟩
  · rw [visibleKeys, rootsOf_eq hshape]
    exact hkeys
  · rw [hmem, or_iff_right List.not_mem_nil]

/-- Among fields with keys of their own, a key belongs to a field in some place only if the field in
this place has it. -/
theorem Enclosed.exists_isOpen_iff {owners : List Value} (h : Enclosed fs owners f)
    (hkeys : (fs.flatMap (gathered "key")).Nodup) {P : Value → Prop} :
    (∃ g, IsOpen limits values fs g ∧ g.getOrNull "key" = f.getOrNull "key" ∧ P g) ↔
      (∀ s ∈ owners, isShown limits s values = .ok true) ∧ P f := by
  constructor
  · rintro ⟨g, ⟨owners', hg, howners⟩, heq, hP⟩
    obtain ⟨rfl, rfl⟩ := hg.unique h hkeys heq
    exact ⟨howners, hP⟩
  · rintro ⟨howners, hP⟩
    exact ⟨f, ⟨owners, h, howners⟩, rfl, hP⟩

/-- The sections around a field are all listed exactly if they are all shown. -/
theorem Enclosed.owners_listed_iff {owners keys : List Value} (h : Enclosed fs owners f)
    (hkeys : (fs.flatMap (gathered "key")).Nodup)
    (hlisted : ∀ key, key ∈ keys ↔ ∃ f, IsListed limits values fs f ∧ f.getOrNull "key" = key) :
    (∀ s ∈ owners, s.getOrNull "key" ∈ keys) ↔
      ∀ s ∈ owners, isShown limits s values = .ok true := by
  have hsection : ∀ {outer s}, Enclosed fs outer s → (s.getOrNull "key" ∈ keys ↔
      (∀ t ∈ outer, isShown limits t values = .ok true) ∧
        isShown limits s values = .ok true) := by
    intro outer s hs
    rw [hlisted, ← hs.exists_isOpen_iff hkeys (P := fun s => isShown limits s values = .ok true)]
    exact exists_congr fun g => and_assoc.trans (and_congr_right fun _ => and_comm)
  constructor
  · intro howners s hs
    obtain ⟨outer, houter, -⟩ := h.owner hs
    exact ((hsection houter).1 (howners s hs)).2
  · intro howners s hs
    obtain ⟨outer, houter, hsub⟩ := h.owner hs
    exact (hsection houter).2 ⟨fun t ht => howners t (hsub ht), howners s hs⟩

/-- In a form whose keys hold no bracket and that gets a report, a field that is reached through
sections only is noted under its key exactly if all sections around it are listed as shown. No field
that is not listed has a message under its key. -/
theorem noted_iff_owners_visible {r : Report} (valid : Schema.problems schema = .ok [])
    (free : IsBracketFree ((Schema.rootFields schema).flatMap (gathered "key")))
    (returns : report limits schema values = .ok r) :
    ∃ keys, visibleKeys limits schema values = .ok keys ∧
      (∀ owners f, Enclosed (Schema.rootFields schema) owners f →
        ((∃ message, (f.getOrNull "key", message) ∈ r) ↔
          ∀ s ∈ owners, s.getOrNull "key" ∈ keys)) ∧
      ∀ f ∈ (Schema.rootFields schema).flatMap Value.owned, f.getOrNull "key" ∉ keys →
        ∀ text, (f.getOrNull "key", some text) ∉ r := by
  obtain ⟨hshape, -, hkeys, -⟩ := Schema.problems_eq_nil_iff.1 valid
  rw [report_eq hshape] at returns
  have hlast := holdsLast_of_foldlM returns
  have hchecked := fun f => hlast.checked_of_isOpen (f := f) hshape
  obtain ⟨keys, hvisible, hlisted⟩ := exists_visibleKeys hshape fun f hf => (hchecked f hf).1
  have hnoted : ∀ key ∈ (Schema.rootFields schema).flatMap (gathered "key"), ∀ message,
      (key, message) ∈ r ↔ ∃ f, IsOpen limits values (Schema.rootFields schema) f ∧
        f.getOrNull "key" = key ∧ fieldMessage? limits f values = .ok message := by
    intro key hkey message
    obtain ⟨name, rfl⟩ := Schema.gathered_text hshape (.inr rfl) key hkey
    exact mem_report_iff hshape hkeys free hlast (free name hkey)
  refine ⟨keys, hvisible, fun owners f h => ?_, fun f hf hhidden text hmem => ?_⟩
  · rw [h.owners_listed_iff hkeys hlisted]
    simp only [hnoted _ h.mem_gathered, h.exists_isOpen_iff hkeys, exists_and_left]
    exact and_iff_left_of_imp fun howners => (hchecked f ⟨owners, h, howners⟩).2
  · obtain ⟨root, hroot, hf⟩ := List.mem_flatMap.1 hf
    have hkey : f.getOrNull "key" ∈ root.gathered "key" := List.mem_map.2 ⟨f, hf, rfl⟩
    obtain ⟨g, hopen, heq, hg⟩ := (hnoted _ (List.mem_flatMap.2 ⟨root, hroot, hkey⟩) _).1 hmem
    obtain ⟨shown, hshown⟩ := (hchecked g hopen).1
    cases shown with
    | true => exact hhidden ((hlisted _).2 ⟨g, ⟨hopen, hshown⟩, heq⟩)
    | false => cases hg.symm.trans (fieldMessage?_of_hidden (hopen.fits hshape.fits) hshown)

/-- A required text. -/
def innerText : Value :=
  .ofFields [("id", .text "4"), ("key", .text "t"), ("type", .text "text"), ("label", .text "T"),
    ("required", .bool true)]

def innerSection : Value :=
  .ofFields [("id", .text "3"), ("key", .text "u"), ("type", .text "section"),
    ("label", .text "U"), ("children", .list [innerText])]

/-- A section that is shown where `a` is true. -/
def outerSection : Value :=
  .ofFields [("id", .text "2"), ("key", .text "s"), ("type", .text "section"),
    ("label", .text "S"), ("visibleWhen", .text "a"), ("children", .list [innerSection])]

/-- A list of numbers. -/
def shownList : Value :=
  .ofFields [("id", .text "6"), ("key", .text "l"), ("type", .text "array"), ("label", .text "L"),
    ("of", .ofFields [("id", .text "7"), ("key", .text "n"), ("type", .text "number"),
      ("label", .text "N")])]

def shownSection : Value :=
  .ofFields [("id", .text "5"), ("key", .text "g"), ("type", .text "section"),
    ("label", .text "G"), ("children", .list [shownList])]

def nestedForm : Value :=
  .ofFields [("version", .int 1), ("fields", .list [outerSection, shownSection])]

def nestedValues : Entries := [(.text "a", .bool false), (.text "l", .list [.text "x"])]

theorem problems_nestedForm : Schema.problems nestedForm = .ok [] := by
  cbv

theorem rootFields_nestedForm : Schema.rootFields nestedForm = [outerSection, shownSection] := by
  cbv

theorem childValues_outerSection : outerSection.childValues = [innerSection] := by
  cbv

theorem childValues_innerSection : innerSection.childValues = [innerText] := by
  cbv

theorem childValues_shownSection : shownSection.childValues = [shownList] := by
  cbv

theorem enclosed_innerText :
    Enclosed (Schema.rootFields nestedForm) [outerSection, innerSection] innerText := by
  refine .inside (by simp [rootFields_nestedForm]) (by cbv) ?_
  refine .inside (by simp [childValues_outerSection]) (by cbv) ?_
  exact .here (by simp [childValues_innerSection])

theorem enclosed_shownList : Enclosed (Schema.rootFields nestedForm) [shownSection] shownList := by
  refine .inside (by simp [rootFields_nestedForm]) (by cbv) ?_
  exact .here (by simp [childValues_shownSection])

theorem isBracketFree_nestedForm :
    IsBracketFree ((Schema.rootFields nestedForm).flatMap (gathered "key")) := by
  have hkeys : (Schema.rootFields nestedForm).flatMap (gathered "key") =
      [.text "s", .text "u", .text "t", .text "g", .text "l", .text "n"] := by cbv
  rw [hkeys]
  simp [IsBracketFree]

theorem visibleKeys_nestedForm :
    visibleKeys (.ok .standard) nestedForm nestedValues = .ok [.text "g", .text "l"] := by
  cbv

theorem report_nestedForm : report (.ok .standard) nestedForm nestedValues = .ok [(.text "s", none),
    (.text "g", none), (.text "l", none), (.text "l[0]", some numberMessage)] := by
  cbv

/-- The text in the hidden section is required but missing, and nothing is noted for it. The list is
noted, since the section around it is listed; what is wrong with its item stands under another name.
-/
theorem hidden_section_not_noted :
    Schema.problems nestedForm = .ok [] ∧
      IsBracketFree ((Schema.rootFields nestedForm).flatMap (gathered "key")) ∧
      ∃ r, report (.ok .standard) nestedForm nestedValues = .ok r ∧
        (.text "l[0]", some numberMessage) ∈ r ∧
        ∃ keys, visibleKeys (.ok .standard) nestedForm nestedValues = .ok keys ∧
          ((∃ message, (innerText.getOrNull "key", message) ∈ r) ↔
            ∀ s ∈ [outerSection, innerSection], s.getOrNull "key" ∈ keys) ∧
          ((∃ message, (shownList.getOrNull "key", message) ∈ r) ↔
            ∀ s ∈ [shownSection], s.getOrNull "key" ∈ keys) ∧
          innerText.getOrNull "key" ∉ keys ∧
          ∀ text, (innerText.getOrNull "key", some text) ∉ r := by
  have hkey : innerText.getOrNull "key" = .text "t" := by cbv
  obtain ⟨keys, hagrees, hnoted, hmessages⟩ :=
    noted_iff_owners_visible problems_nestedForm isBracketFree_nestedForm report_nestedForm
  obtain rfl := Except.ok.inj (visibleKeys_nestedForm.symm.trans hagrees)
  have hhidden : innerText.getOrNull "key" ∉ [Value.text "g", .text "l"] := by simp [hkey]
  exact ⟨problems_nestedForm, isBracketFree_nestedForm, _, report_nestedForm, by simp, _, hagrees,
    hnoted _ _ enclosed_innerText, hnoted _ _ enclosed_shownList, hhidden,
    hmessages innerText enclosed_innerText.mem_owned hhidden⟩

end Form

end FormDesigner
