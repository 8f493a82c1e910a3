import FormDesigner.Proofs.Field.Factory
import FormDesigner.Proofs.Field.Splicing

/-!
# Fresh copies

A fresh copy is the field that was copied but for its ids and keys, and those of everything that it
owns. The ids are the next ones of the supply, one for each node, and the keys are new ones: the keys
that are taken grow on the way, so that no key is given twice. Copying walks along what stands under
`children` and `of`, and ids and keys are gathered from what a type owns; for fields that fit this is
the same.
-/

namespace FormDesigner

open Work

namespace Forest

mutual

/-- A field without the ids and keys on it and on everything that it owns. -/
def unnamedField : Field → Value
  | .node v children template =>
    let v := (v.drop "id").drop "key"
    let v := if v.isSection then v.put "children" (.list (unnamedAll children)) else v
    unnamedTemplate v template

def unnamedAll : List Field → List Value
  | [] => []
  | f :: fs => unnamedField f :: unnamedAll fs

/-- A field with a template, if there is one, without ids and keys. -/
def unnamedTemplate (v : Value) : Option Field → Value
  | none => v
  | some f => v.put "of" (unnamedField f)

end

end Forest

namespace Value

open FormDesigner.Field (ofValue)

variable {v w : Value} {es : Entries} {n : String}

/-- A field without the ids and keys on it and on everything that it owns. -/
def unnamed (v : Value) : Value := Forest.unnamedField (ofValue v)

/-- A field without its own id and key. -/
def nameless (v : Value) : Value := (v.drop "id").drop "key"

theorem drop_put_self : (v.put n w).drop n = v.drop n := by
  cases v with
  | map es => exact congrArg Value.map Entries.erase_insert_self
  | _ => rfl

theorem drop_put_of_ne {m : String} (h : m ≠ n) : (v.put n w).drop m = (v.drop m).put n w := by
  cases v with
  | map es => exact congrArg Value.map (Entries.erase_insert_of_ne h)
  | _ => rfl

/-- A field with another id and key. -/
def named (v : Value) (id key : String) : Value := (v.put "id" (.text id)).put "key" (.text key)

section

variable {id key : String}

theorem isMap_named : (v.named id key).isMap = v.isMap := by rw [named, isMap_put, isMap_put]

theorem isSection_named : (v.named id key).isSection = v.isSection := by
  rw [named, isSection_put (by decide), isSection_put (by decide)]

theorem isArray_named : (v.named id key).isArray = v.isArray := by
  rw [named, isArray_put (by decide), isArray_put (by decide)]

theorem templateValue?_named : (v.named id key).templateValue? = v.templateValue? := by
  rw [named, templateValue?_put_of_ne (by decide) (by decide),
    templateValue?_put_of_ne (by decide) (by decide)]

theorem getOrNull_named_id (hv : v.isMap = true) : (v.named id key).getOrNull "id" = .text id := by
  rw [named, getOrNull_put_of_ne (by decide), getOrNull_put_self hv]

theorem getOrNull_named_key (hv : v.isMap = true) :
    (v.named id key).getOrNull "key" = .text key := by
  rw [named, getOrNull_put_self (by rwa [isMap_put])]

/-- The names of a field do not matter to what it is without them. -/
theorem nameless_named : (v.named id key).nameless = v.nameless := by
  rw [nameless, named, drop_put_of_ne (by decide), drop_put_self, drop_put_self, nameless]

end

theorem nameless_put (hid : n ≠ "id") (hkey : n ≠ "key") :
    (v.put n w).nameless = v.nameless.put n w := by
  rw [nameless, drop_put_of_ne hid.symm, drop_put_of_ne hkey.symm, nameless]

theorem isSection_nameless : v.nameless.isSection = v.isSection := by
  rw [isSection, isSection, hasType, hasType, nameless, isMap_drop, isMap_drop, getOrNull, getOrNull,
    get?_drop_of_ne (by decide), get?_drop_of_ne (by decide)]

private theorem unnamedAll_map (vs : List Value) :
    Forest.unnamedAll (vs.map ofValue) = vs.map unnamed := by
  induction vs with
  | nil => rfl
  | cons v vs ih => rw [List.map_cons, Forest.unnamedAll, ih, List.map_cons, unnamed]

theorem unnamed_of_isSection (hv : v.isSection = true) :
    v.unnamed = v.nameless.put "children" (.list (v.childValues.map unnamed)) := by
  rw [unnamed, Field.ofValue_eq, Forest.unnamedField, templateValue?_of_isSection hv,
    unnamedAll_map]
  rw [← nameless, isSection_nameless, if_pos hv]
  exact Forest.unnamedTemplate.eq_1 _

theorem unnamed_of_template (hv : ¬ v.isSection = true) (ht : v.templateValue? = some w) :
    v.unnamed = v.nameless.put "of" w.unnamed := by
  rw [unnamed, Field.ofValue_eq, Forest.unnamedField, ht, Option.map_some]
  rw [← nameless, isSection_nameless, if_neg hv]
  exact Forest.unnamedTemplate.eq_2 _ _

theorem unnamed_of_none (hv : ¬ v.isSection = true) (ht : v.templateValue? = none) :
    v.unnamed = v.nameless := by
  rw [unnamed, Field.ofValue_eq, Forest.unnamedField, ht, Option.map_none]
  rw [← nameless, isSection_nameless, if_neg hv]
  exact Forest.unnamedTemplate.eq_1 _

theorem isMap_unnamed (v : Value) : v.unnamed.isMap = v.isMap := by
  have hnameless : v.nameless.isMap = v.isMap := by rw [nameless, isMap_drop, isMap_drop]
  by_cases hsection : v.isSection = true
  · rw [unnamed_of_isSection hsection, isMap_put, hnameless]
  · cases ht : v.templateValue? with
    | none => rw [unnamed_of_none hsection ht, hnameless]
    | some t => rw [unnamed_of_template hsection ht, isMap_put, hnameless]

/-- What a field owns, as it stands in its entries. -/
inductive Parts (v : Value) : Prop
  | holder {cs : List Value} (isSection : v.isSection = true)
      (children : v.get? "children" = some (.list cs)) (childValues : v.childValues = cs)
      (template : v.get? "of" = none)
  | repeater {t : Value} (notSection : ¬ v.isSection = true) (children : v.get? "children" = none)
      (template : v.get? "of" = some t) (templateValue : v.templateValue? = some t)
  | leaf (notSection : ¬ v.isSection = true) (children : v.get? "children" = none)
      (template : v.get? "of" = none) (templateValue : v.templateValue? = none)

theorem Fits.parts (h : v.Fits) (hv : v.IsJson) : v.Parts := by
  by_cases hsection : v.isSection = true
  · have hnone : v.get? "of" = none := by
      cases hof : v.get? "of" with
      | none => rfl
      | some t =>
          have harray := h.isArray_of_template hof
          rw [not_isArray_of_isSection hsection] at harray
          cases harray
    cases h with
    | @intro es type kind own children template =>
        obtain rfl := (isSection_map_iff kind).1 hsection
        obtain ⟨list, xs, hlist, hxs, hvalues⟩ :=
          (Fits.intro kind own children template).exists_children kind
        have hjson : list.IsJson := hv.get? (n := "children") hlist
        exact .holder hsection (hjson.eq_list hxs ▸ hlist) hvalues hnone
  · have hchildren : v.get? "children" = none := by
      cases hlist : v.get? "children" with
      | none => rfl
      | some list => exact absurd (h.isSection_of_children hlist) hsection
    cases hof : v.get? "of" with
    | none =>
        refine .leaf hsection hchildren hof ?_
        rw [templateValue?, hof, ite_self]
    | some t =>
        refine .repeater hsection hchildren hof ?_
        rw [templateValue?, if_pos (h.isArray_of_template hof), hof]

end Value

namespace Factory

open Value (gathered unnamed)

/-- How copying fails: no key was found that is not taken. -/
def noKeyLeft (start : String) : Failure :=
  .fault .runtime ("Could not generate a unique key for prefix '" ++ start ++ "'")

/-- What names are drawn for goes well as `P` says, or no key is left. -/
def Draws {α : Type} (P : α → Supply → Prop) : Except Failure α → Supply → Prop
  | .ok a, q => P a q
  | .error e, _ => ∃ start, e = noKeyLeft start

variable {p q r : Supply} {taken taken' taken'' ids ids' keys keys' : List Value} {v : Value}

theorem Draws.mono {α : Type} {P Q : α → Supply → Prop} (hPQ : ∀ a q, P a q → Q a q) :
    ∀ r q, Draws P r q → Draws Q r q
  | .ok a, q, h => hPQ a q h
  | .error _, _, h => h

theorem ends_bind_of_draws {α β : Type} {w : Minting α} {f : α → Minting β}
    {P : α → Supply → Prop} {Q : β → Supply → Prop} (hw : w.Ends p (Draws P))
    (hf : ∀ a q, P a q → (f a).Ends q (Draws Q)) : (w >>= f).Ends p (Draws Q) := by
  rw [ends_bind]
  refine hw.mono fun r q h => ?_
  cases r with
  | ok a => exact hf a q h
  | error e => exact h

/-- Names that are given one after the other while a supply is used up and keys are taken: the ids
are the next ones, and the keys are new. -/
structure Names (p : Supply) (taken ids keys : List Value) (q : Supply) (taken' : List Value) :
    Prop where
  follows : p.Follows q
  le : p.ids ≤ q.ids
  ids : ids = (List.range' p.ids (q.ids - p.ids)).map fun i => .text (p.idAt i)
  nodup : keys.Nodup
  fresh : ∀ k ∈ keys, k ∉ taken
  taken : ∀ k, k ∈ taken' ↔ k ∈ taken ∨ k ∈ keys

theorem Names.refl (p : Supply) (taken : List Value) : Names p taken [] [] p taken where
  follows := .refl p
  le := Nat.le_refl _
  ids := by rw [Nat.sub_self]; rfl
  nodup := .nil
  fresh _ h := absurd h List.not_mem_nil
  taken _ := by simp

theorem Names.trans (h : Names p taken ids keys q taken')
    (h' : Names q taken' ids' keys' r taken'') :
    Names p taken (ids ++ ids') (keys ++ keys') r taken'' where
  follows := ⟨h'.follows.1.trans h.follows.1, h'.follows.2.trans h.follows.2⟩
  le := Nat.le_trans h.le h'.le
  ids := by
    have hsplit : r.ids - p.ids = (q.ids - p.ids) + (r.ids - q.ids) := by
      have := h.le
      have := h'.le
      omega
    have hstart : p.ids + (q.ids - p.ids) = q.ids := Nat.add_sub_cancel' h.le
    rw [h.ids, h'.ids, h.follows.1, hsplit, ← List.range'_append_1, hstart, List.map_append]
  nodup := by
    refine List.nodup_append'.2 ⟨h.nodup, h'.nodup, fun k hk hk' => ?_⟩
    exact h'.fresh k hk' ((h.taken k).2 (.inr hk))
  fresh k hk := by
    rcases List.mem_append.1 hk with hk | hk
    · exact h.fresh k hk
    · exact fun htaken => h'.fresh k hk ((h.taken k).2 (.inl htaken))
  taken k := by rw [h'.taken, h.taken, List.mem_append, or_assoc]

theorem keyAttempts_draws (start : String) (taken : List Value) (attempt more : Nat) :
    (keyAttempts start taken attempt more).Ends p
      (Draws fun key q => p.Follows q ∧ q.ids = p.ids ∧ Value.text key ∉ taken) := by
  induction more generalizing attempt p with
  | zero => exact ⟨start, rfl⟩
  | succ more ih =>
      rw [keyAttempts, ends_bind, Minting.newLetters, ends_modifyGet, andThen_ok]
      dsimp only
      split
      · refine (ih (attempt + 1)).mono (Draws.mono fun key q h => ?_)
        exact ⟨h.1, h.2.1, h.2.2⟩
      · next h => exact ⟨⟨rfl, rfl⟩, rfl, mt Value.among_text_iff.2 h⟩

theorem newKey_draws (start : String) (taken : List Value) :
    (newKey (.text start) taken).Ends p
      (Draws fun key q => p.Follows q ∧ q.ids = p.ids ∧ Value.text key ∉ taken) := by
  rw [newKey, ends_bind, ends_ofExcept]
  exact keyAttempts_draws start taken 0 maxAttempts

/-- The names of one node are the next id and a new key. -/
theorem newNames_draws {β : Type} (start : String) (taken : List Value)
    {f : String → String → Minting β} {Q : β → Supply → Prop}
    (hf : ∀ id key q, Names p taken [.text id] [.text key] q (.text key :: taken) →
      (f id key).Ends q (Draws Q)) :
    (do
      let id ← Minting.newId
      let key ← newKey (.text start) taken
      f id key : Minting β).Ends p (Draws Q) := by
  rw [ends_bind, Minting.newId, ends_modifyGet, andThen_ok]
  refine ends_bind_of_draws (newKey_draws start taken) fun key q h => ?_
  obtain ⟨hfollows, hids, hkey⟩ := h
  have hids : q.ids = p.ids + 1 := hids
  refine hf _ key q ⟨hfollows, by omega, ?_, List.nodup_singleton _, ?_, fun k => ?_⟩
  · rw [hids, Nat.add_sub_cancel_left]
    rfl
  · exact List.forall_mem_singleton.2 hkey
  · rw [List.mem_cons, List.mem_singleton, or_comm]

/-- Copies of fields, made one after the other. -/
structure Copied (p : Supply) (taken : List Value) (vs : List Value)
    (copies : List Value × List Value) (q : Supply) : Prop where
  unnamed : copies.1.map unnamed = vs.map unnamed
  names : Names p taken (copies.1.flatMap (gathered "id")) (copies.1.flatMap (gathered "key")) q
    copies.2

theorem Copied.nil (p : Supply) (taken : List Value) : Copied p taken [] ([], taken) p :=
  ⟨rfl, .refl p taken⟩

theorem Copied.cons {vs cs : List Value} {c : Value} (h : Copied p taken [v] ([c], taken') q)
    (h' : Copied q taken' vs (cs, taken'') r) : Copied p taken (v :: vs) (c :: cs, taken'') r where
  unnamed := by
    have hc : c.unnamed = v.unnamed := List.singleton_injective h.unnamed
    rw [List.map_cons, List.map_cons, hc, h'.unnamed]
  names := by
    have hnames := h.names.trans h'.names
    rw [List.flatMap_singleton, List.flatMap_singleton] at hnames
    exact hnames

/-- Every field is copied after those before it. -/
theorem refreshAll_draws {vs : List Value}
    (hvs : ∀ v ∈ vs, ∀ p taken, (refresh taken v).Ends p
      (Draws fun r q => Copied p taken [v] ([r.1], r.2) q)) (taken : List Value) :
    (refreshAll taken vs).Ends p (Draws fun r q => Copied p taken vs r q) := by
  induction vs generalizing p taken with
  | nil =>
      rw [refreshAll]
      exact Copied.nil p taken
  | cons v vs ih =>
      obtain ⟨hv, hvs⟩ := List.forall_mem_cons.1 hvs
      rw [refreshAll]
      refine ends_bind_of_draws (hv p taken) fun r q h => ?_
      exact ends_bind_of_draws (ih hvs r.2) fun r' q' h' => h.cons h'

section

variable {id key : String} (hv : v.isMap = true)
  (h : Names p taken [.text id] [.text key] q taken')
include hv h

private theorem copied_leaf (hsection : ¬ v.isSection = true)
    (htemplate : v.templateValue? = none) : Copied p taken [v] ([v.named id key], taken') q := by
  have hnot : ¬ (v.named id key).isSection = true := by rwa [Value.isSection_named]
  have hnone : (v.named id key).templateValue? = none := by rwa [Value.templateValue?_named]
  have hown : ∀ n, (v.named id key).gathered n = [(v.named id key).getOrNull n] := fun n => by
    rw [Value.gathered_eq, Value.fieldTemplate, hnone, Value.childValues, if_neg hnot]
    rfl
  refine ⟨?_, ?_⟩
  · rw [List.map_singleton, List.map_singleton, Value.unnamed_of_none hnot hnone,
      Value.unnamed_of_none hsection htemplate, Value.nameless_named]
  · rw [List.flatMap_singleton, List.flatMap_singleton, hown, hown, Value.getOrNull_named_id hv,
      Value.getOrNull_named_key hv]
    exact h

private theorem copied_section {cs : List Value} (hsection : v.isSection = true)
    (hcs : Copied q taken' v.childValues (cs, taken'') r) :
    Copied p taken [v] ([(v.named id key).put "children" (.list cs)], taken'') r := by
  have hnamed : (v.named id key).isSection = true := by rwa [Value.isSection_named]
  have hput : ((v.named id key).put "children" (.list cs)).isSection = true := by
    rwa [Value.isSection_put (by decide)]
  refine ⟨?_, ?_⟩
  · rw [List.map_singleton, List.map_singleton, Value.unnamed_of_isSection hput,
      Value.unnamed_of_isSection hsection, Value.nameless_put (by decide) (by decide),
      Value.put_put, Value.nameless_named, Value.childValues_put_children hnamed, hcs.unnamed]
  · rw [List.flatMap_singleton, List.flatMap_singleton,
      Value.gathered_put_children hnamed (by decide),
      Value.gathered_put_children hnamed (by decide), Value.getOrNull_named_id hv,
      Value.getOrNull_named_key hv]
    exact h.trans hcs.names

private theorem copied_array {t c : Value} (hsection : ¬ v.isSection = true)
    (htemplate : v.templateValue? = some t) (ht : t.isMap = true)
    (hc : Copied q taken' [t] ([c], taken'') r) :
    Copied p taken [v] ([(v.named id key).put "of" c], taken'') r := by
  have hcopy : c.unnamed = t.unnamed := List.singleton_injective hc.unnamed
  have hcmap : c.isMap = true := by rw [← Value.isMap_unnamed, hcopy, Value.isMap_unnamed, ht]
  have hnot : ¬ ((v.named id key).put "of" c).isSection = true := by
    rwa [Value.isSection_put (by decide), Value.isSection_named]
  have harray : ((v.named id key).put "of" c).isArray = true := by
    rw [Value.isArray_put (by decide), Value.isArray_named]
    by_contra hnone
    rw [Value.templateValue?, if_neg hnone] at htemplate
    cases htemplate
  have hnew : ((v.named id key).put "of" c).templateValue? = some c := by
    rw [Value.templateValue?, if_pos harray, Value.get?_put_self (by rwa [Value.isMap_named])]
  have hown : ∀ n, n ≠ "of" → ((v.named id key).put "of" c).gathered n =
      (v.named id key).getOrNull n :: c.gathered n := by
    intro n hn
    rw [Value.gathered_eq, Value.fieldTemplate, hnew, Option.filter_some_pos hcmap,
      Value.childValues, if_neg hnot, Value.getOrNull_put_of_ne hn]
    exact congrArg (_ :: ·) (List.flatMap_singleton ..)
  refine ⟨?_, ?_⟩
  · rw [List.map_singleton, List.map_singleton, Value.unnamed_of_template hnot hnew,
      Value.unnamed_of_template hsection htemplate, Value.nameless_put (by decide) (by decide),
      Value.put_put, Value.nameless_named, hcopy]
  · have hnames := h.trans hc.names
    rw [List.flatMap_singleton, List.flatMap_singleton] at hnames ⊢
    rw [hown "id" (by decide), hown "key" (by decide), Value.getOrNull_named_id hv,
      Value.getOrNull_named_key hv]
    exact hnames

end

/-- A fresh copy differs from the field in nothing but its names, which are new. -/
theorem refresh_draws (hv : v.IsJson) (hfits : v.Fits) (p : Supply) (taken : List Value) :
    (refresh taken v).Ends p (Draws fun r q => Copied p taken [v] ([r.1], r.2) q) := by
  induction v using Value.owned_induction generalizing p taken with
  | node v ihChildren ihTemplate =>
      have hmap := hfits.isMap
      have hparts := hfits.parts hv
      have hchildren : ∀ c ∈ v.childValues, ∀ p taken, (refresh taken c).Ends p
          (Draws fun r q => Copied p taken [c] ([r.1], r.2) q) := fun c hc =>
        ihChildren c hc (hv.childValues c hc) (hfits.children c hc)
      have htemplates : ∀ t ∈ v.templateValue?, t.isMap = true ∧ ∀ p taken,
          (refresh taken t).Ends p (Draws fun r q => Copied p taken [t] ([r.1], r.2) q) :=
        fun t ht => ⟨(hfits.template t ht).isMap,
          ihTemplate t ht (hv.templateValue? t ht) (hfits.template t ht)⟩
      obtain ⟨type, htype⟩ := hfits.exists_type
      cases v with
      | map es =>
          have hstart : ((Value.map es).get? "type").getD (.text "field") = .text type.name := by
            rw [Value.get?_of_getOrNull htype nofun]
            rfl
          rw [refresh, hstart]
          refine newNames_draws type.name taken fun id key q h => ?_
          rw [refreshChildren_eq]
          cases hparts with
          | @holder cs isSection children childValues template =>
              rw [show Entries.get? es (.text "children") = some (.list cs) from children]
              dsimp only
              rw [refreshList]
              refine ends_bind_of_draws (P := fun r q' => ∃ cs', r.1 = some cs' ∧
                Copied q (.text key :: taken) cs (cs', r.2) q') ?_ ?_
              · refine ends_bind_of_draws (refreshAll_draws (childValues ▸ hchildren) _) ?_
                exact fun r q' hcs => ⟨r.1, rfl, hcs⟩
              · rintro ⟨_, taken'⟩ q' ⟨cs', rfl, hcs⟩
                dsimp only
                rw [refreshTemplate_eq, show Entries.get? es (.text "of") = none from template]
                exact copied_section hmap h isSection (childValues ▸ hcs)
          | @repeater t notSection children template templateValue =>
              obtain ⟨ht, hcopy⟩ := htemplates t templateValue
              rw [show Entries.get? es (.text "children") = none from children]
              dsimp only
              rw [ends_bind, ends_pure, andThen_ok, refreshTemplate_eq,
                show Entries.get? es (.text "of") = some t from template]
              dsimp only
              rw [if_pos ht]
              refine ends_bind_of_draws (P := fun r q' => ∃ c, r.1 = some c ∧
                Copied q (.text key :: taken) [t] ([c], r.2) q') ?_ ?_
              · refine ends_bind_of_draws (hcopy _ _) ?_
                exact fun r q' hc => ⟨r.1, rfl, hc⟩
              · rintro ⟨_, taken'⟩ q' ⟨c, rfl, hc⟩
                exact copied_array hmap h notSection templateValue ht hc
          | leaf notSection children template templateValue =>
              rw [show Entries.get? es (.text "children") = none from children]
              dsimp only
              rw [ends_bind, ends_pure, andThen_ok, refreshTemplate_eq,
                show Entries.get? es (.text "of") = none from template]
              exact copied_leaf hmap h notSection templateValue
      | _ => cases hmap

theorem takenKeys_of_texts {keys : List Value} (hkeys : ∀ k ∈ keys, ∃ s, k = .text s) :
    (Value.list keys).takenKeys = .ok keys := by
  have hall : Value.allHashable keys = true := by
    induction keys with
    | nil => rfl
    | cons k keys ih =>
        obtain ⟨⟨s, rfl⟩, hrest⟩ := List.forall_mem_cons.1 hkeys
        rw [Value.allHashable, ih hrest, Bool.and_true]
        rfl
  exact if_pos hall

theorem regenerate_draws (hv : v.IsJson) (hfits : v.Fits) {keys : List Value}
    (hkeys : ∀ k ∈ keys, ∃ s, k = .text s) :
    (regenerate v (.list keys)).Ends p
      (Draws fun w q => ∃ taken, Copied p keys [v] ([w], taken) q) := by
  rw [regenerate, ends_bind, ends_ofExcept, takenKeys_of_texts hkeys, andThen_ok]
  refine ends_bind_of_draws (refresh_draws hv hfits p keys) fun r q h => ?_
  exact ⟨r.2, h⟩

end Factory

end FormDesigner
