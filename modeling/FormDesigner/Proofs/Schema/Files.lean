import FormDesigner.Proofs.Schema.RoundTrip
import FormDesigner.Proofs.Text.Splitting
import FormDesigner.Proofs.Work
import FormDesigner.Proofs.Yaml.Documents
import FormDesigner.Schema.File

/-!
# Schema files that are saved and loaded

A schema is saved at the place of its path, where it is found again, as the octets of a text. Of a
text without carriage returns, a file holds exactly that text. So a schema whose texts survive being
written in YAML is loaded from its file as what it was, with its members in order.
-/

namespace FormDesigner

/-! ### Texts in files -/

namespace Text

theorem unifyBreaks_of_not_mem {cs : List Char} (h : '\r' ∉ cs) : unifyBreaks cs = cs := by
  induction cs with
  | nil => rfl
  | cons c cs ih =>
      obtain ⟨hc, hcs⟩ := not_or.1 (mt List.mem_cons.2 h)
      unfold unifyBreaks
      split
      · next heq => cases heq
      · next heq => exact absurd (List.cons.inj heq).1.symm hc
      · next heq => exact absurd (List.cons.inj heq).1.symm hc
      · next heq =>
          obtain ⟨rfl, rfl⟩ := List.cons.inj heq
          rw [ih hcs]

/-- Octets are listed from the first on. -/
theorem toList_octets (bs : ByteArray) : bs.toList = bs.data.toList := by
  have hloop : ∀ i r, ByteArray.toList.loop bs i r = r.reverse ++ bs.data.toList.drop i := by
    intro i r
    fun_induction ByteArray.toList.loop bs i r with
    | case1 i r h ih =>
        have hi : i < bs.data.toList.length := by simpa using h
        have hget : bs.get! i = bs.data.toList[i] := by
          rw [Array.getElem_toList]
          exact getElem!_pos bs.data i h
        rw [ih, List.drop_eq_getElem_cons hi, hget]
        simp
    | case2 i r h =>
        have hi : bs.data.toList.length ≤ i := by simpa using h
        rw [List.drop_eq_nil_of_le hi, List.append_nil]
  rw [ByteArray.toList, hloop]
  simp

theorem ofOctets?_toOctets (s : String) : ofOctets? (toOctets s) = some s := by
  have hbytes : (⟨s.toUTF8.toList.toArray⟩ : ByteArray) = s.toUTF8 := by
    rw [toList_octets, Array.toArray_toList]
  have hvalid : s.toUTF8.IsValidUTF8 := s.isValidUTF8
  rw [ofOctets?, toOctets, hbytes, String.fromUTF8?, dif_pos hvalid]
  rfl

theorem ofFile?_toOctets {s : String} (h : '\r' ∉ s.toList) : ofFile? (toOctets s) = some s := by
  rw [ofFile?, ofOctets?_toOctets]
  change some (String.ofList (unifyBreaks s.toList)) = some s
  rw [unifyBreaks_of_not_mem h, String.ofList_toList]

end Text

/-! ### Names of files -/

namespace Path

/-- A text without slashes is the name of something in the working directory. -/
theorem ofText_of_name {s : String} (slashless : '/' ∉ s.toList) (filled : s ≠ "")
    (undotted : s ≠ ".") : ofText s = ⟨"", [s]⟩ := by
  have hsplit : s.splitOn "/" = [s] := Text.splitOn_of_notMem slashless
  have hroot : rootOf s = "" := by
    rw [rootOf, List.takeWhile_eq_nil_iff.2]
    intro hlt heq
    exact slashless (of_decide_eq_true heq ▸ List.getElem_mem hlt)
  rw [ofText, hroot, hsplit, List.filter_cons_of_pos (by simp [filled, undotted]), List.filter_nil]

end Path

/-! ### Files on a disk -/

namespace Disk

variable {d : Disk} {p : Path} {l : Location} {n : DiskNode}

theorem node?_put_self (h : l ≠ []) : (d.put l n).node? l = some n := by
  simp [node?, put, h]

theorem lookup_filter_ne {m : Location} (h : m ≠ l) (nodes : List (Location × DiskNode)) :
    (nodes.filter fun e => e.1 ≠ l).lookup m = nodes.lookup m := by
  induction nodes with
  | nil => rfl
  | cons e nodes ih =>
      by_cases he : e.1 = l
      · have hme : (m == e.1) = false := beq_eq_false_iff_ne.2 (he ▸ h)
        rw [List.filter_cons_of_neg (by simpa using he), ih, List.lookup_cons, hme]
      · rw [List.filter_cons_of_pos (by simpa using he), List.lookup_cons, List.lookup_cons, ih]

theorem node?_put_of_ne {m : Location} (h : m ≠ l) : (d.put l n).node? m = d.node? m := by
  rw [node?, node?]
  split
  · rfl
  · rw [put, List.lookup_cons, beq_eq_false_iff_ne.2 h]
    exact lookup_filter_ne h d.nodes

/-- What is put where no folder stands is on the way to nothing else. -/
theorem follow_put (h : d.node? l ≠ some .folder) {start m : Location} {names : List String}
    (hfollow : d.follow start names = .ok m) : (d.put l n).follow start names = .ok m := by
  induction names generalizing start with
  | nil => exact hfollow
  | cons name names ih =>
      rw [follow] at hfollow ⊢
      cases hnode : d.node? start with
      | none =>
          rw [hnode] at hfollow
          cases hfollow
      | some node =>
          rw [hnode] at hfollow
          cases node with
          | file => cases hfollow
          | folder =>
              have hstart : start ≠ l := fun heq => h (heq ▸ hnode)
              rw [node?_put_of_ne hstart, hnode]
              dsimp only at hfollow ⊢
              split at hfollow
              · cases hfollow
              · next hsize =>
                  rw [if_neg hsize]
                  exact ih hfollow

theorem locate_put (h : d.node? l ≠ some .folder) {m : Location} (hlocate : d.locate p = .ok m) :
    (d.put l n).locate p = .ok m := by
  unfold locate at hlocate ⊢
  split at hlocate
  · cases hlocate
  · next hnull =>
      rw [if_neg hnull]
      split at hlocate
      · cases hlocate
      · next hsize =>
          rw [if_neg hsize]
          exact follow_put h hlocate

/-- A file that has been written is read. -/
theorem read_of_write {octets : List UInt8} {d' : Disk} (h : d.write p octets = .ok d') :
    d'.read p = .ok octets := by
  obtain ⟨l, hlocate, h⟩ := Result.bind_eq_ok.1 h
  split at h
  · cases h
  · next hfolder =>
      obtain rfl := Except.ok.inj h
      have hne : l ≠ [] := by
        rintro rfl
        exact hfolder rfl
      rw [read, locate_put hfolder hlocate, Result.ok_bind, node?_put_self hne]

/-- A file can be written at a path, in a folder that is made if need be. -/
def HasRoom (d : Disk) (p : Path) : Prop :=
  ∃ made, d.makeFolders p.parent = (.ok (), made) ∧ ∀ octets, ∃ d', made.write p octets = .ok d'

theorem hasRoom_of_name {name : String} (hnull : name.contains '\x00' = false)
    (hsize : name.utf8ByteSize ≤ maxName) (hup : name ≠ "..")
    (hfree : d.node? [name] ≠ some .folder) : d.HasRoom ⟨"", [name]⟩ := by
  refine ⟨d, rfl, fun octets => ⟨d.put [name] (.file octets), ?_⟩⟩
  have htext : Path.text ⟨"", [name]⟩ = name := String.empty_append
  have hshort : ¬maxPath ≤ name.utf8ByteSize := Nat.not_le.2 (Nat.lt_of_le_of_lt hsize (by decide))
  have hlocate : d.locate ⟨"", [name]⟩ = .ok [name] := by
    rw [locate, htext, if_neg (by simp [hnull]), if_neg hshort]
    simp [follow, node?, hup, Nat.not_lt.2 hsize]
  rw [write, hlocate, Result.ok_bind, if_neg hfree]

end Disk

/-! ### Schemas in files -/

namespace Schema

open Value (IsIn)

/-- A valid schema stays valid when its members are put in order. -/
theorem problems_sortKeys {schema : Value} (carried : schema.IsJson)
    (valid : problems schema = .ok []) : problems schema.sortKeys = .ok [] := by
  have hsound : IsSound .json schema := isSound_of_problems carried valid
  have himage := Json.image_eq_sortKeys carried
  have hsorted : IsSound .json schema.sortKeys :=
    himage ▸ hsound.image true fun _ hnan => by cases hnan
  have hrange : InRange schema.sortKeys ↔ InRange schema := himage ▸ inRange_image carried true
  exact hsorted.valid_iff.2 (hrange.2 (hsound.valid_iff.1 valid))

/-- The text of a valid schema in YAML, of which a file holds just that. -/
theorem load_of_fileText {schema : Value} (carried : schema.IsJson)
    (valid : problems schema = .ok []) (texts : ∀ t ∈ Yaml.textsOf schema, t.Survives) :
    ∃ text, fileText .yaml schema = .ok text ∧ Text.ofFile? (Text.toOctets text) = some text ∧
      load (.text text) = .ok schema.sortKeys := by
  have hsound : IsSound .json schema := isSound_of_problems carried valid
  cases schema with
  | map es =>
      have hne : es ≠ [] := by
        rintro rfl
        obtain ⟨v, hv⟩ := hsound.shape.hasVersion
        cases hv
      obtain ⟨text, hwrite, hclean, hjson, hread⟩ :=
        Yaml.exists_write_read carried hne (hsound.shape.attributed carried) texts
      refine ⟨text, hwrite, Text.ofFile?_toOctets fun hmem => (hclean _ hmem).2 rfl, ?_⟩
      refine load_eq_ok_iff.2 ⟨?_, problems_sortKeys carried valid⟩
      change parseText text = _
      rw [parseText, hjson]
      simp only [hread]
  | _ => exact absurd hsound.shape.isMap (by simp [Value.isMap])

/-- A valid schema that JSON can carry is saved in a YAML file, from which it is loaded again with
its members in order, if its texts survive being written there. -/
theorem loadFile_of_saveFile {d : Disk} {path schema : Value} {p : Path}
    (located : Storage.pathOf path = .ok p) (format : formatOf p = .ok .yaml) (room : d.HasRoom p)
    (carried : schema.IsJson) (valid : problems schema = .ok [])
    (texts : ∀ t ∈ Yaml.textsOf schema, t.Survives) :
    ∃ d' loaded, (saveFile path schema).outcome d = (.ok (), d') ∧ loadFile d' path = .ok loaded ∧
      loaded.Rearranges schema := by
  obtain ⟨made, hmade, hwrite⟩ := room
  obtain ⟨text, htext, hfile, hload⟩ := load_of_fileText carried valid texts
  obtain ⟨d', hd'⟩ := hwrite (Text.toOctets text)
  refine ⟨d', schema.sortKeys, ?_, ?_, carried.rearranges_sortKeys⟩
  · have saved : Work.Ends (saveFile path schema) d fun r t => r = .ok () ∧ t = d' := by
      simp [saveFile, located, format, valid, hmade, htext, hd', Storage.checked, Except.mapError]
    exact Prod.ext saved.1 saved.2
  · have hread : readText d' p = .ok text := by
      simp only [readText, Disk.read_of_write hd', hfile]
    rw [loadFile, located, Result.ok_bind, format, Result.ok_bind, hread, Result.ok_bind]
    exact hload

/-- Texts that look like other values, that span lines and that only escapes can write. -/
def lookalikes : Value :=
  .ofFields [("version", .int 1), ("fields", .list [
    .ofFields [("type", .text "section"), ("key", .text "s"), ("id", .text "1"),
      ("label", .text "2024-01-01"), ("children", .list [
        .ofFields [("type", .text "text"), ("key", .text "yes"), ("id", .text "2"),
          ("label", .text "[0x1F, ~]"), ("helpText", .text "a\nb: c\n\nd"),
          ("placeholder", .text ""), ("defaultValue", .text "a\u0085\tb  c\r\n")]])]])]

theorem lookalikes_isJson : lookalikes.IsJson := by
  have hone : (Value.int 1).IsJson := .scalar rfl (Value.isSome_integerText? (by decide))
  refine IsIn.ofFields (by simp) ?_
  simp only [List.forall_mem_cons]
  refine ⟨hone, .list (List.forall_mem_singleton.2 (IsIn.ofFields (by simp) ?_)),
    List.forall_mem_nil _⟩
  simp only [List.forall_mem_cons]
  refine ⟨.text _, .text _, .text _, .text _,
    .list (List.forall_mem_singleton.2 (IsIn.ofFields (by simp) ?_)), List.forall_mem_nil _⟩
  simp only [List.forall_mem_cons]
  exact ⟨.text _, .text _, .text _, .text _, .text _, .text _, .text _, List.forall_mem_nil _⟩

theorem problems_lookalikes : problems lookalikes = .ok [] := by cbv

theorem formatOf_yaml : formatOf ⟨"", ["s.yaml"]⟩ = .ok .yaml := by
  have hsuffix : FileFormat.ofSuffix? (Path.suffix ⟨"", ["s.yaml"]⟩) = some .yaml := by
    decide +kernel
  unfold formatOf
  rw [hsuffix]

/-- They are saved on an empty disk and loaded again. -/
theorem loadFile_of_saveFile_lookalikes :
    lookalikes.IsJson ∧ (∀ t ∈ Yaml.textsOf lookalikes, t.Survives) ∧
      ∃ d loaded, (saveFile (.text "s.yaml") lookalikes).outcome Disk.empty = (.ok (), d) ∧
        loadFile d (.text "s.yaml") = .ok loaded ∧ loaded.Rearranges lookalikes := by
  have hpath : Storage.pathOf (.text "s.yaml") = .ok ⟨"", ["s.yaml"]⟩ :=
    congrArg Except.ok (Path.ofText_of_name (by decide) (by decide) (by decide))
  have hroom : Disk.empty.HasRoom ⟨"", ["s.yaml"]⟩ :=
    Disk.hasRoom_of_name (by simp [String.contains]) (by decide) (by decide)
      (by simp [Disk.node?, Disk.empty])
  have htexts : ∀ t ∈ Yaml.textsOf lookalikes, t.Survives := by decide +kernel
  exact ⟨lookalikes_isJson, htexts, loadFile_of_saveFile hpath formatOf_yaml hroom
    lookalikes_isJson problems_lookalikes htexts⟩

end Schema

end FormDesigner
