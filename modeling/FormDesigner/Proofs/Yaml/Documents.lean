import FormDesigner.Proofs.Json.Image
import FormDesigner.Proofs.Schema.Keys
import FormDesigner.Proofs.Yaml.Composing

/-!
# Documents that are written and read

A text is written where its place in the document puts it, on lines that are indented by the depth
of that place. A document whose texts all survive this, with names of attributes for keys, is read
as what it was, with its members in order.
-/

namespace FormDesigner

namespace Yaml

/-! ### The texts of a document -/

/-- A text in a document, with the indentation of its lines. -/
structure PlacedText where
  indent : Nat
  text : String
deriving DecidableEq, Repr

namespace PlacedText

/-- The text is not lost where it is written. -/
def Survives (t : PlacedText) : Prop := (Leaf.mk .text t.text false).Survives t.indent

end PlacedText

instance (l : Leaf) (n : Nat) : Decidable (l.Survives n) :=
  match h : l.quotes with
  | .single => decidable_of_iff (nextLine ∉ l.text.toList) (by simp [Leaf.Survives, h])
  | .double =>
    decidable_of_iff (n < bestWidth ∨ hasPair escapesBefore l.text.toList = false)
      (by simp [Leaf.Survives, h])
  | .plain => isTrue (by simp [Leaf.Survives, h])
  | .literal => isTrue (by simp [Leaf.Survives, h])

instance : DecidablePred PlacedText.Survives := fun t =>
  inferInstanceAs (Decidable ((Leaf.mk .text t.text false).Survives t.indent))

mutual

/-- The texts of a value that stands after a hyphen in column `n`, or after the colon of a key that
does. -/
def textsIn (entry : Bool) (n : Nat) : Value → List PlacedText
  | .text s => [⟨n + levelIndent, s⟩]
  | .list xs => textsOfItems (if entry then n else n + levelIndent) xs
  | .map es => textsOfEntries (n + levelIndent) es
  | _ => []

/-- The texts of the items whose hyphens stand in column `n`. -/
def textsOfItems (n : Nat) : List Value → List PlacedText
  | [] => []
  | x :: xs => textsIn false n x ++ textsOfItems n xs

/-- The texts of the values whose keys stand in column `n`. -/
def textsOfEntries (n : Nat) : List (Value × Value) → List PlacedText
  | [] => []
  | (_, v) :: es => textsIn true n v ++ textsOfEntries n es

end

/-- The texts of a document that is a mapping. -/
def textsOf : Value → List PlacedText
  | .map es => textsOfEntries 0 es
  | _ => []

theorem mem_textsOfItems {n : Nat} {xs : List Value} {x : Value} (hx : x ∈ xs) {t : PlacedText}
    (ht : t ∈ textsIn false n x) : t ∈ textsOfItems n xs := by
  induction xs with
  | nil => cases hx
  | cons y ys ih =>
      rw [textsOfItems]
      rcases List.mem_cons.1 hx with rfl | hx
      · exact List.mem_append_left _ ht
      · exact List.mem_append_right _ (ih hx)

theorem mem_textsOfEntries {n : Nat} {es : Entries} {e : Value × Value} (he : e ∈ es)
    {t : PlacedText} (ht : t ∈ textsIn true n e.2) : t ∈ textsOfEntries n es := by
  induction es with
  | nil => cases he
  | cons d ds ih =>
      rw [textsOfEntries]
      rcases List.mem_cons.1 he with rfl | he
      · exact List.mem_append_left _ ht
      · exact List.mem_append_right _ (ih he)

/-! ### Legible values -/

theorem isName_of_attribute {k : String} (h : k ∈ Shape.attributeNames) : IsName k := by
  have hall : ∀ k ∈ Shape.attributeNames, (∀ c ∈ k.toList, c.isAlpha = true) ∧ k ≠ "" ∧
      k.length ≤ 100 ∧ plainTag true k = .text := by decide +kernel
  obtain ⟨letters, filled, size, tag⟩ := hall k h
  exact ⟨letters, filled, size, tag⟩

/-- What is no text is written plainly. -/
theorem Leaf.ReadsAs.survives {l : Leaf} {v : Value} (h : l.ReadsAs v) {entry : Bool} {n : Nat}
    (texts : ∀ t ∈ textsIn entry n v, t.Survives) : l.Survives (n + levelIndent) := by
  by_cases hquotes : l.quotes = .plain
  · simp [Leaf.Survives, hquotes]
  · obtain rfl := h.text (h.simple.tag hquotes)
    have := texts ⟨n + levelIndent, l.text⟩ (by simp [textsIn])
    have hleaf : l = ⟨.text, l.text, false⟩ := by
      rw [← h.simple.tag hquotes, ← h.simple.block]
    rw [hleaf]
    exact this

/-- A value that JSON can carry is legible if its keys are names of attributes and its texts
survive. -/
theorem legible_of_attributed {v : Value} (h : Shape.IsAttributed v) (hv : v.IsJson) {entry : Bool}
    {n : Nat} (texts : ∀ t ∈ textsIn entry n v, t.Survives) : Legible entry n v := by
  induction h generalizing entry n with
  | scalar hscalar =>
      obtain ⟨l, hl, hreads⟩ := exists_leaf (hv.node_of_scalar hscalar)
      exact .leaf hl hreads.simple (hreads.survives texts)
  | list items ih =>
      rw [textsIn] at texts
      exact .list fun x hx => ih x hx (Value.IsIn.list_iff.1 hv x hx) fun t ht =>
        texts t (mem_textsOfItems hx ht)
  | map keys values ih =>
      rw [textsIn] at texts
      refine .map (fun e he => ?_) fun e he => ih e he (hv.of_mem he) fun t ht =>
        texts t (mem_textsOfEntries he ht)
      obtain ⟨k, hk, hname⟩ := keys e he
      exact ⟨k, hk, isName_of_attribute hname⟩

/-- The members of a mapping are put in order, and so are those of their values. -/
theorem sortKeys_map {es : Entries} (keys : ∀ e ∈ es, ∃ s, e.1 = .text s) :
    ∃ fs, (Value.map es).sortKeys = .map fs ∧ fs.Perm (es.map fun e => (e.1, e.2.sortKeys)) := by
  have hkeys : ∀ e ∈ es.map fun e => (e.1, e.2.sortKeys), ∃ s, e.1 = Value.text s :=
    List.forall_mem_map.2 keys
  exact ⟨_, by rw [Value.sortKeys, Json.sortEntries_eq_map, Json.orderEntries_eq_inOrder hkeys],
    Json.inOrder_perm true _⟩

theorem Legible.sortKeys {entry : Bool} {n : Nat} {v : Value} (h : Legible entry n v) :
    Legible entry n v.sortKeys := by
  induction h with
  | @leaf _ _ v l hl simple survives =>
      have hv : v.sortKeys = v := by
        cases v with
        | list | tuple | map => cases hl
        | _ => rfl
      rw [hv]
      exact .leaf hl simple survives
  | list items ih =>
      rw [Value.sortKeys, Json.sortAll_eq_map]
      exact .list (List.forall_mem_map.2 ih)
  | map names values ih =>
      obtain ⟨fs, hfs, hperm⟩ := sortKeys_map fun e he => (names e he).imp fun _ h => h.1
      rw [hfs]
      refine .map (fun e he => ?_) fun e he => ?_
      · obtain ⟨d, hd, rfl⟩ := List.mem_map.1 (hperm.mem_iff.1 he)
        exact names d hd
      · obtain ⟨d, hd, rfl⟩ := List.mem_map.1 (hperm.mem_iff.1 he)
        exact ih d hd

/-! ### Documents -/

/-- No document that begins with the name of an attribute is JSON. -/
theorem json_read_of_attribute {k : String} (hk : k ∈ Shape.attributeNames) (rest : List Char) :
    Json.read (String.ofList (k.toList ++ rest)) = .error .malformed := by
  have hstart : ∀ k ∈ Shape.attributeNames, 2 ≤ k.toList.length ∧
      (∀ w ∈ Json.words, 2 ≤ w.1.toList.length ∧ w.1.toList.take 2 ≠ k.toList.take 2) ∧
      ∀ c ∈ k.toList.head?, c.isAlpha = true ∧ c.isDigit = false := by decide
  obtain ⟨hlength, hwords, hhead⟩ := hstart k hk
  have hword : Json.word? (k.toList ++ rest) = none := by
    rw [Json.word?, List.findSome?_eq_none_iff]
    intro w hw
    obtain ⟨hsize, hne⟩ := hwords w hw
    refine if_neg fun hprefix => hne ?_
    obtain ⟨tail, htail⟩ := List.isPrefixOf_iff_prefix.1 hprefix
    have := congrArg (List.take 2) htail
    rwa [List.take_append_of_le_length hsize, List.take_append_of_le_length hlength] at this
  obtain ⟨c, cs, hcs⟩ : ∃ c cs, k.toList = c :: cs := List.exists_cons_of_ne_nil fun hnil => by
    simp [hnil] at hlength
  obtain ⟨hc, hdigit⟩ := hhead c (by rw [hcs]; rfl)
  have hblank : Json.isJsonBlank c = false := by
    simp [Json.isJsonBlank, ne_of_isAlpha hc]
  have hnumber : Json.readNumber (k.toList ++ rest) = .error .malformed := by
    rw [hcs]
    simp [Json.readNumber, ne_of_isAlpha hc, hdigit]
  have hvalue : ∀ fuel, Json.readValue (fuel + 1) (k.toList ++ rest) = .error .malformed := by
    intro fuel
    rw [hcs] at hword hnumber ⊢
    unfold Json.readValue
    split
    · next heq => exact absurd (List.cons.inj heq).1 (ne_of_isAlpha hc rfl)
    · next heq => exact absurd (List.cons.inj heq).1 (ne_of_isAlpha hc rfl)
    · next heq => exact absurd (List.cons.inj heq).1 (ne_of_isAlpha hc rfl)
    · rw [hword]
      exact hnumber
  have hskip : Json.skipBlanks (k.toList ++ rest) = k.toList ++ rest := by
    rw [hcs]
    simp [Json.skipBlanks, hblank]
  rw [Json.read, String.toList_ofList]
  simp only [hskip, hvalue]
  rfl

/-- A document whose texts survive is written as a text that is no JSON and is read as the document,
with its members in order. -/
theorem exists_write_read {es : Entries} (hes : (Value.map es).IsJson) (hne : es ≠ [])
    (hkeys : Shape.IsAttributed (.map es)) (texts : ∀ t ∈ textsOf (.map es), t.Survives) :
    ∃ text, write .block (.map es) = .ok text ∧ (∀ c ∈ text.toList, IsClean c) ∧
      Json.read text = .error .malformed ∧ read false text = .ok (Value.map es).sortKeys := by
  obtain ⟨fs, hfs, hperm⟩ := sortKeys_map (Value.IsIn.map_iff.1 hes).2.1
  obtain ⟨hnamed, hlegible⟩ : (∀ e ∈ fs, ∃ k, e.1 = .text k ∧ k ∈ Shape.attributeNames) ∧
      ∀ e ∈ fs, Legible true 0 e.2 := by
    cases hkeys with
    | scalar hv => cases hv
    | map keys values =>
        refine ⟨fun e he => ?_, fun e he => ?_⟩
        · obtain ⟨d, hd, rfl⟩ := List.mem_map.1 (hperm.mem_iff.1 he)
          exact keys d hd
        · obtain ⟨d, hd, rfl⟩ := List.mem_map.1 (hperm.mem_iff.1 he)
          exact (legible_of_attributed (values d hd) (hes.of_mem hd) fun t ht =>
            texts t (mem_textsOfEntries hd ht)).sortKeys
  have hne' : fs ≠ [] := by
    rintro rfl
    exact hne (List.map_eq_nil_iff.1 hperm.symm.eq_nil)
  obtain ⟨cs, ts, hwrite, hlays⟩ := write_lays hfs hne'
    (fun e he => (hnamed e he).imp fun k h => ⟨h.1, isName_of_attribute h.2⟩) hlegible
  have hjson : (Value.map fs).IsJson := by
    rw [← hfs]
    exact Json.IsJson.sortKeys hes
  refine ⟨_, hwrite, ?_, ?_, ?_⟩
  · rw [String.toList_ofList]
    exact List.forall_mem_append.2 ⟨hlays.clean, List.forall_mem_singleton.2 isClean_feed⟩
  · obtain ⟨k, v, more, rest, rfl, -, rfl⟩ := hlays.startsName
    obtain ⟨k', hk', hname⟩ := hnamed _ (.head _)
    obtain rfl := Value.text.inj hk'
    rw [List.append_assoc]
    exact json_read_of_attribute hname _
  · rw [read_of_layout hlays hjson, hfs]

end Yaml

end FormDesigner
