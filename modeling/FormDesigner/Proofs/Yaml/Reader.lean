import FormDesigner.Proofs.Result
import FormDesigner.Proofs.Value.Domain
import FormDesigner.Yaml.Reader

/-!
# What is read from YAML

Whatever is read from YAML keeps one value under each key: a mapping takes its entries one after the
other, and a later one takes the place of an earlier one with the same key.
-/

namespace FormDesigner

namespace Yaml

open Value (IsIn IsProper)

/-- Entries whose keys and values are proper. -/
def AllProper (es : Entries) : Prop := ∀ e ∈ es, e.1.IsProper ∧ e.2.IsProper

theorem AllProper.nil : AllProper [] := by simp [AllProper]

theorem AllProper.append {es fs : Entries} (hes : AllProper es) (hfs : AllProper fs) :
    AllProper (es ++ fs) := fun e he =>
  (List.mem_append.1 he).elim (hes e) (hfs e)

theorem AllProper.cons {k v : Value} {es : Entries} (hk : k.IsProper) (hv : v.IsProper)
    (hes : AllProper es) : AllProper ((k, v) :: es) :=
  List.forall_mem_cons.2 ⟨⟨hk, hv⟩, hes⟩

theorem insertAll_isProper {es fs : Entries} (hes : (Value.map es).IsProper) (hfs : AllProper fs) :
    (Value.map (Entries.insertAll es fs)).IsProper := by
  induction fs generalizing es with
  | nil => exact hes
  | cons f fs ih =>
      obtain ⟨hf, hfs⟩ := List.forall_mem_cons.1 hfs
      exact ih (hes.insert trivial hf.2) hfs

theorem foldl_addMember_isProper {fs : Entries} {ms : List Value}
    (hms : ∀ m ∈ ms, m.IsProper) (hfs : AllProper fs) :
    ∀ m ∈ fs.foldl (fun ms f => addMember ms f.1) ms, m.IsProper := by
  induction fs generalizing ms with
  | nil => exact hms
  | cons f fs ih =>
      obtain ⟨hf, hfs⟩ := List.forall_mem_cons.1 hfs
      refine ih ?_ hfs
      change ∀ m ∈ addMember ms f.1, m.IsProper
      unfold addMember
      split
      · exact hms
      · exact List.forall_mem_append.2 ⟨hms, List.forall_mem_singleton.2 hf.1⟩

/-! ### Scalars -/

theorem isProper_of_isScalar {v : Value} (hv : v.isScalar = true) : v.IsProper := .scalar hv trivial

private theorem ofNumber_isProper (n : Number) : (Value.ofNumber n).IsProper := by
  cases n <;> exact isProper_of_isScalar rfl

theorem float_isProper {s : String} {v : Value} (h : float s = .ok v) : v.IsProper := by
  unfold float at h
  obtain ⟨⟨negative, cs⟩, -, h⟩ := Result.bind_eq_ok.1 h
  simp only at h
  split at h
  · rw [← Except.ok.inj h]
    exact ofNumber_isProper _
  split at h
  · rw [← Except.ok.inj h]
    exact isProper_of_isScalar rfl
  split at h
  · obtain ⟨ds, -, h⟩ := Result.bind_eq_ok.1 h
    split at h
    · rw [← Except.ok.inj h]
      exact ofNumber_isProper _
    · cases h
  · obtain ⟨x, -, h⟩ := Result.bind_eq_ok.1 h
    rw [← Except.ok.inj h]
    exact ofNumber_isProper _

theorem timestamp_isProper {s : String} {v : Value} (h : timestamp s = .ok v) : v.IsProper := by
  refine isProper_of_isScalar ?_
  unfold timestamp at h
  split at h
  · cases h
  split at h
  · obtain ⟨d, -, h⟩ := Result.bind_eq_ok.1 h
    rw [← Except.ok.inj h]
    rfl
  · obtain ⟨offset, -, h⟩ := Result.bind_eq_ok.1 h
    obtain ⟨d, -, h⟩ := Result.bind_eq_ok.1 h
    obtain ⟨_, -, h⟩ := Result.bind_eq_ok.1 h
    obtain ⟨_, -, h⟩ := Result.bind_eq_ok.1 h
    obtain ⟨_, -, h⟩ := Result.bind_eq_ok.1 h
    rw [← Except.ok.inj h]
    rfl

theorem truth_isProper {s : String} {v : Value} (h : truth s = .ok v) : v.IsProper := by
  refine isProper_of_isScalar ?_
  unfold truth at h
  split at h
  · rw [← Except.ok.inj h]
    rfl
  · cases h

theorem octets_isProper {s : String} {v : Value} (h : octets s = .ok v) : v.IsProper := by
  refine isProper_of_isScalar ?_
  unfold octets at h
  split at h
  · split at h
    · rw [← Except.ok.inj h]
      rfl
    · cases h
  · cases h

/-! ### Nodes -/

mutual

theorem construct_isProper : ∀ (n : Node) {v : Value}, construct n = .ok v → v.IsProper
  | .scalar tag s, v, h => by
      unfold construct at h
      split at h
      · rw [← Except.ok.inj h]
        exact isProper_of_isScalar rfl
      · exact truth_isProper h
      · obtain ⟨n, -, rfl⟩ := Result.map_eq_ok.1 h
        exact isProper_of_isScalar rfl
      · exact float_isProper h
      · exact octets_isProper h
      · exact timestamp_isProper h
      · rw [← Except.ok.inj h]
        exact .text s
      · cases h
  | .list tag ns, v, h => by
      unfold construct at h
      split at h
      · obtain ⟨vs, hvs, h⟩ := Result.bind_eq_ok.1 h
        rw [← Except.ok.inj h]
        exact .list (constructAll_isProper ns hvs)
      · obtain ⟨vs, hvs, h⟩ := Result.bind_eq_ok.1 h
        rw [← Except.ok.inj h]
        exact .list (constructPairs_isProper ns hvs)
      · obtain ⟨vs, hvs, h⟩ := Result.bind_eq_ok.1 h
        rw [← Except.ok.inj h]
        exact .list (constructPairs_isProper ns hvs)
      · cases h
  | .map tag es, v, h => by
      unfold construct at h
      split at h
      · obtain ⟨fs, hfs, h⟩ := Result.bind_eq_ok.1 h
        rw [← Except.ok.inj h]
        exact insertAll_isProper .empty (entries_isProper es hfs)
      · obtain ⟨fs, hfs, h⟩ := Result.bind_eq_ok.1 h
        rw [← Except.ok.inj h]
        exact .set trivial (foldl_addMember_isProper (by simp) (entries_isProper es hfs))
      · obtain ⟨_, -, h⟩ := Result.bind_eq_ok.1 h
        rw [← Except.ok.inj h]
        exact isProper_of_isScalar rfl
      · obtain ⟨_, -, h⟩ := Result.bind_eq_ok.1 h
        exact truth_isProper h
      · obtain ⟨_, -, h⟩ := Result.bind_eq_ok.1 h
        obtain ⟨_, -, h⟩ := Result.bind_eq_ok.1 h
        rw [← Except.ok.inj h]
        exact isProper_of_isScalar rfl
      · obtain ⟨_, -, h⟩ := Result.bind_eq_ok.1 h
        exact float_isProper h
      · obtain ⟨_, -, h⟩ := Result.bind_eq_ok.1 h
        exact octets_isProper h
      · obtain ⟨t, -, h⟩ := Result.bind_eq_ok.1 h
        rw [← Except.ok.inj h]
        exact .text t
      · cases h

theorem constructAll_isProper : ∀ (ns : List Node) {vs : List Value},
    constructAll ns = .ok vs → ∀ v ∈ vs, v.IsProper
  | [], vs, h => by
      unfold constructAll at h
      rw [← Except.ok.inj h]
      simp
  | n :: ns, vs, h => by
      unfold constructAll at h
      obtain ⟨v, hv, h⟩ := Result.bind_eq_ok.1 h
      obtain ⟨us, hus, h⟩ := Result.bind_eq_ok.1 h
      rw [← Except.ok.inj h]
      exact List.forall_mem_cons.2 ⟨construct_isProper n hv, constructAll_isProper ns hus⟩

theorem entries_isProper (es : List (Node × Node)) {fs : Entries} (h : entries es = .ok fs) :
    AllProper fs := by
  unfold entries at h
  obtain ⟨⟨merged, own⟩, hsplit, h⟩ := Result.bind_eq_ok.1 h
  rw [← Except.ok.inj h]
  obtain ⟨hmerged, hown⟩ := splitEntries_isProper es hsplit
  exact hmerged.append hown

theorem splitEntries_isProper : ∀ (es : List (Node × Node)) {merged own : Entries},
    splitEntries es = .ok (merged, own) → AllProper merged ∧ AllProper own
  | [], merged, own, h => by
      unfold splitEntries at h
      obtain ⟨rfl, rfl⟩ := Prod.mk.inj (Except.ok.inj h)
      exact ⟨.nil, .nil⟩
  | (k, v) :: es, merged, own, h => by
      unfold splitEntries at h
      split at h
      · obtain ⟨first, hfirst, h⟩ := Result.bind_eq_ok.1 h
        obtain ⟨⟨merged', own'⟩, hsplit, h⟩ := Result.bind_eq_ok.1 h
        obtain ⟨rfl, rfl⟩ := Prod.mk.inj (Except.ok.inj h)
        obtain ⟨hmerged, hown⟩ := splitEntries_isProper es hsplit
        exact ⟨(mergedFrom_isProper v hfirst).append hmerged, hown⟩
      · obtain ⟨key, hkey, h⟩ := Result.bind_eq_ok.1 h
        obtain ⟨w, hw, h⟩ := Result.bind_eq_ok.1 h
        obtain ⟨⟨merged', own'⟩, hsplit, h⟩ := Result.bind_eq_ok.1 h
        obtain ⟨rfl, rfl⟩ := Prod.mk.inj (Except.ok.inj h)
        obtain ⟨hmerged, hown⟩ := splitEntries_isProper es hsplit
        exact ⟨hmerged, .cons (constructKey_isProper k hkey) (construct_isProper v hw) hown⟩

theorem constructKey_isProper (k : Node) {key : Value} (h : constructKey k = .ok key) :
    key.IsProper := by
  unfold constructKey at h
  split at h
  · rw [← Except.ok.inj h]
    exact .text _
  · obtain ⟨w, hw, h⟩ := Result.bind_eq_ok.1 h
    split at h
    · rw [← Except.ok.inj h]
      exact construct_isProper k hw
    · cases h

theorem mergedFrom_isProper : ∀ (n : Node) {es : Entries}, mergedFrom n = .ok es → AllProper es
  | .scalar _ _, es, h => by
      unfold mergedFrom at h
      cases h
  | .list _ ns, es, h => by
      unfold mergedFrom at h
      obtain ⟨ess, hess, h⟩ := Result.bind_eq_ok.1 h
      rw [← Except.ok.inj h]
      intro e he
      obtain ⟨fs, hfs, he⟩ := List.mem_flatten.1 he
      exact mergedEach_isProper ns hess fs (List.mem_reverse.1 hfs) e he
  | .map _ fs, es, h => by
      unfold mergedFrom at h
      exact entries_isProper fs h

theorem mergedEach_isProper : ∀ (ns : List Node) {ess : List Entries},
    mergedEach ns = .ok ess → ∀ es ∈ ess, AllProper es
  | [], ess, h => by
      unfold mergedEach at h
      rw [← Except.ok.inj h]
      simp
  | .map _ es :: ns, ess, h => by
      unfold mergedEach at h
      obtain ⟨first, hfirst, h⟩ := Result.bind_eq_ok.1 h
      obtain ⟨more, hmore, h⟩ := Result.bind_eq_ok.1 h
      rw [← Except.ok.inj h]
      exact List.forall_mem_cons.2 ⟨entries_isProper es hfirst, mergedEach_isProper ns hmore⟩
  | .scalar _ _ :: _, ess, h | .list _ _ :: _, ess, h => by
      unfold mergedEach at h
      cases h

theorem constructPairs_isProper : ∀ (ns : List Node) {vs : List Value},
    constructPairs ns = .ok vs → ∀ v ∈ vs, v.IsProper
  | [], vs, h => by
      unfold constructPairs at h
      rw [← Except.ok.inj h]
      simp
  | .map _ [(k, v)] :: ns, vs, h => by
      unfold constructPairs at h
      obtain ⟨key, hkey, h⟩ := Result.bind_eq_ok.1 h
      obtain ⟨w, hw, h⟩ := Result.bind_eq_ok.1 h
      obtain ⟨more, hmore, h⟩ := Result.bind_eq_ok.1 h
      rw [← Except.ok.inj h]
      refine List.forall_mem_cons.2 ⟨.tuple trivial ?_, constructPairs_isProper ns hmore⟩
      exact List.forall_mem_cons.2
        ⟨construct_isProper k hkey, List.forall_mem_singleton.2 (construct_isProper v hw)⟩
  | .map _ [] :: _, vs, h | .map _ (_ :: _ :: _) :: _, vs, h | .scalar _ _ :: _, vs, h
  | .list _ _ :: _, vs, h => by
      unfold constructPairs at h
      cases h

end

/-- What is read keeps one value under each text. -/
theorem isProper_of_read {times : Bool} {s : String} {v : Value} (h : read times s = .ok v) :
    v.IsProper := by
  unfold read at h
  obtain ⟨n, -, h⟩ := Result.bind_eq_ok.1 h
  split at h
  · rw [← Except.ok.inj h]
    exact isProper_of_isScalar rfl
  · exact construct_isProper _ h

end Yaml

end FormDesigner
