import FormDesigner.Proofs.Value.Alignment
import FormDesigner.Proofs.Value.Difference
import FormDesigner.Proofs.Value.Domain

/-!
# What no change shows

`Unseen` says which values are told apart by no change, without the search for changes: data of one
kind that are equal, lists of plain data that are equal in the same places even if they are not of one
kind, other lists item by item, and mappings under each name that counts.
-/

namespace FormDesigner

namespace Value

variable {v : Value} {xs ys : List Value}

theorem same_scalar (hv : v.isScalar = true) : v.same v = true := by
  cases v with
  | float x =>
      cases x <;> simp [same, sameNan, equals, asQuantity?, Number.eq, Number.compare?,
        Binary64.compare?]
  | moment t =>
      have hself : t.agrees t = true := by
        unfold Moment.agrees
        cases t.offset <;> simp
      simp [same, equals, hself]
  | list | tuple | set | map => cases hv
  | _ => simp [same, equals, asQuantity?, Number.eq, Number.compare?]

private theorem equalItems_self (h : ∀ x ∈ xs, x.same x = true) : equalItems xs xs = true := by
  induction xs with
  | nil => simp [equalItems]
  | cons x xs ih =>
      obtain ⟨hx, hxs⟩ := List.forall_mem_cons.1 h
      rw [same] at hx
      rw [equalItems, hx, ih hxs, Bool.and_self]

private theorem allAmong_of_subset (h : ∀ x ∈ xs, x.same x = true) (hsub : xs ⊆ ys) :
    allAmong xs ys = true := by
  induction xs with
  | nil => simp [allAmong]
  | cons x xs ih =>
      obtain ⟨hx, hxs⟩ := List.forall_mem_cons.1 h
      rw [allAmong, ih hxs fun y hy => hsub (.tail _ hy), Bool.and_true, List.any_eq_true]
      exact ⟨x, hsub (.head _), hx⟩

/-- Every value is the same as itself. -/
theorem same_self (hv : v.IsIn .textKeyed) : v.same v = true := by
  induction hv with
  | scalar hv _ => exact same_scalar hv
  | list _ ih =>
      rw [same, equals, equalItems_self ih, Bool.or_true]
  | tuple _ _ ih =>
      rw [same, equals, equalItems_self ih, Bool.or_true]
  | set _ _ ih =>
      rw [same, equals, allAmong_of_subset ih (List.Subset.refl _), beq_self_eq_true, Bool.and_true,
        Bool.or_true]
  | @map es names keys _ ih =>
      rw [same, equals, beq_self_eq_true, Bool.true_and, allEntriesAmong_iff.2, Bool.or_true]
      intro e he
      obtain ⟨s, hs⟩ := keys e he
      have hget := (Entries.get?_eq_some_iff names).2 (hs ▸ he : (text s, e.2) ∈ es)
      obtain ⟨f, hf, hfe⟩ := Option.map_eq_some_iff.1 hget
      exact ⟨f, hs ▸ hf, hfe ▸ ih e he⟩

end Value

namespace Difference

open Value (text IsIn)

/-- Two lists hold only data without parts. -/
def ArePlain (vs ws : List Value) : Prop := ∀ v ∈ vs ++ ws, isPlain v = true

/-- Two values differ in nothing that is listed as a change. -/
inductive Unseen : Value → Value → Prop
  | data {v w : Value} (plain : isPlain v = true) (kind : v.kindName = w.kindName)
      (same : v.same w = true) : Unseen v w
  | set {vs ws : List Value} (same : (Value.set vs).same (.set ws) = true) :
      Unseen (.set vs) (.set ws)
  | plainList {vs ws : List Value} (plain : ArePlain vs ws)
      (same : SameItems vs ws) : Unseen (.list vs) (.list ws)
  | plainTuple {vs ws : List Value} (plain : ArePlain vs ws)
      (same : SameItems vs ws) : Unseen (.tuple vs) (.tuple ws)
  | list {vs ws : List Value} (compound : ¬ ArePlain vs ws)
      (items : List.Forall₂ Unseen vs ws) : Unseen (.list vs) (.list ws)
  | tuple {vs ws : List Value} (compound : ¬ ArePlain vs ws)
      (items : List.Forall₂ Unseen vs ws) : Unseen (.tuple vs) (.tuple ws)
  | map {es fs : Entries}
      (entries : ∀ n, isPrivate (text n) = false →
        Option.Rel Unseen (Entries.get? es (text n)) (Entries.get? fs (text n))) :
      Unseen (.map es) (.map fs)

variable {v w : Value} {vs ws : List Value} {es fs : Entries} {n : String}

theorem Unseen.map_iff : Unseen (.map es) (.map fs) ↔ ∀ n, isPrivate (text n) = false →
    Option.Rel Unseen (Entries.get? es (text n)) (Entries.get? fs (text n)) := by
  refine ⟨fun h => ?_, .map⟩
  cases h with
  | data plain => cases plain
  | map entries => exact entries

/-! ### Data -/

theorem ofData_eq_nil_iff_same (hv : v.IsUndated) :
    ofData v w = [] ↔ v.kindName = w.kindName ∧ v.same w = true := by
  have hsame : sameDatum v w = v.same w := by
    cases v with
    | moment => exact hv.elim
    | _ => rfl
  rw [ofData_eq_nil_iff, hsame]

/-! ### Lists -/

theorem arePlain_iff : (vs.all isPlain && ws.all isPlain) = true ↔ ArePlain vs ws := by
  rw [Bool.and_eq_true_iff, List.all_eq_true, List.all_eq_true, ArePlain, List.forall_mem_append]

theorem betweenItems_eq_nil_iff {i : Nat} :
    betweenItems i vs ws = [] ↔ List.Forall₂ (fun v w => between v w = []) vs ws := by
  refine ⟨forall₂_of_betweenItems, fun h => ?_⟩
  induction h generalizing i with
  | nil => rw [betweenItems]
  | cons h _ ih => rw [betweenItems, h, ih, List.map_nil, List.append_nil]

theorem ofPlainLists_eq_nil_iff_of_undated (hvs : ∀ v ∈ vs, v.IsIn .undated)
    (plain : ArePlain vs ws) :
    ofPlainLists vs ws = [] ↔ SameItems vs ws := by
  refine ofPlainLists_eq_nil_iff fun v hv w hnil => ?_
  have hscalar : v.isScalar = true := by
    have hplain := plain v (List.mem_append_left _ hv)
    cases v <;> first | rfl | cases hplain
  exact ((ofData_eq_nil_iff_same ((hvs v hv).node_of_scalar hscalar)).1 hnil).2

private theorem forall₂_congr_of_mem {R S : Value → Value → Prop}
    (h : ∀ v ∈ vs, ∀ w ∈ ws, R v w ↔ S v w) : List.Forall₂ R vs ws ↔ List.Forall₂ S vs ws := by
  rw [List.forall₂_iff_zip, List.forall₂_iff_zip]
  refine and_congr_right fun _ => forall₂_congr fun v w => ?_
  exact forall_congr' fun hmem => h v (List.of_mem_zip hmem).1 w (List.of_mem_zip hmem).2

private theorem rel_congr {R S : Value → Value → Prop} {a b : Option Value}
    (h : ∀ v, a = some v → ∀ w, b = some w → (R v w ↔ S v w)) :
    Option.Rel R a b ↔ Option.Rel S a b := by
  constructor
  · rintro (hvw | _)
    · exact .some ((h _ rfl _ rfl).1 hvw)
    · exact .none
  · rintro (hvw | _)
    · exact .some ((h _ rfl _ rfl).2 hvw)
    · exact .none

/-! ### Mappings -/

/-- The names of a mapping that count. -/
def shownNames (es : Entries) : List String :=
  (Entries.names es).filter fun n => !isPrivate (text n)

theorem mem_shownNames_iff :
    n ∈ shownNames es ↔ n ∈ Entries.names es ∧ isPrivate (text n) = false := by
  rw [shownNames, List.mem_filter, Bool.not_eq_true']

theorem keysOf_eq (hes : (Value.map es).IsIn .undated) : keysOf es = (shownNames es).map text := by
  obtain ⟨-, keys, -⟩ := IsIn.map_iff.1 hes
  have hkeys : Entries.keys es = (Entries.names es).map text := by
    clear hes
    induction es with
    | nil => rfl
    | cons e es ih =>
        obtain ⟨⟨s, hs⟩, hrest⟩ := List.forall_mem_cons.1 keys
        obtain ⟨k, v⟩ := e
        obtain rfl : k = text s := hs
        rw [Entries.names_cons_text, List.map_cons, ← ih hrest]
        rfl
  rw [keysOf, hkeys, List.filter_map]
  rfl

/-- Mappings under the same names share all of them. -/
theorem fewShared_eq_false (hes : (Value.map es).IsIn .undated) (hfs : (Value.map fs).IsIn .undated)
    (h : ∀ n, n ∈ shownNames es ↔ n ∈ shownNames fs) : fewShared es fs = false := by
  have hperm : (shownNames es).Perm (shownNames fs) :=
    (List.perm_ext_iff_of_nodup (hes.names_nodup.filter _) (hfs.names_nodup.filter _)).2 h
  have hshared : ((shownNames es).map text).filter (fun k => k.among ((shownNames fs).map text)) =
      (shownNames es).map text := by
    refine List.filter_eq_self.2 fun k hk => ?_
    obtain ⟨n, hn, rfl⟩ := List.mem_map.1 hk
    exact Value.among_text_iff.2 (List.mem_map_of_mem ((h n).1 hn))
  unfold fewShared
  dsimp only
  rw [keysOf_eq hes, keysOf_eq hfs, hshared, List.length_map, List.length_map, hperm.length_eq,
    Bool.and_eq_false_imp]
  intro _
  rw [decide_eq_false_iff_not, leastShare]
  omega

private theorem betweenEntries_eq_nil (keys : ∀ e ∈ es, ∃ n, e.1 = text n)
    (h : ∀ n v w, isPrivate (text n) = false → (text n, v) ∈ es →
      Entries.get? fs (text n) = some w → between v w = []) : betweenEntries fs es = [] := by
  induction es with
  | nil => rw [betweenEntries]
  | cons e es ih =>
      obtain ⟨⟨n, hn⟩, hrest⟩ := List.forall_mem_cons.1 keys
      obtain ⟨k, v⟩ := e
      obtain rfl : k = text n := hn
      rw [betweenEntries, ih hrest fun m v w hm hv => h m v w hm (.tail _ hv), List.append_nil]
      split
      · rfl
      · next hshown =>
          split
          · next w hw => rw [h n v w (Bool.eq_false_iff.2 hshown) (.head _) hw, List.map_nil]
          · rfl

private theorem contains_iff (h : ∀ n, n ∈ shownNames es ↔ n ∈ shownNames fs) {k : Value}
    (hk : k ∈ (shownNames es).map text) : Entries.contains fs k = true := by
  obtain ⟨n, hn, rfl⟩ := List.mem_map.1 hk
  exact Entries.contains_text_iff.2 (mem_shownNames_iff.1 ((h n).1 hn)).1

theorem between_map_eq_nil_iff (hes : (Value.map es).IsIn .undated)
    (hfs : (Value.map fs).IsIn .undated) :
    between (.map es) (.map fs) = [] ↔ ∀ n, isPrivate (text n) = false →
      Option.Rel (fun v w => between v w = []) (Entries.get? es (text n))
        (Entries.get? fs (text n)) := by
  constructor
  · intro h n hn
    cases hv : Entries.get? es (text n) with
    | some v =>
        obtain ⟨w, hw, hnil⟩ := of_between_map h hn hv
        rw [hw]
        exact .some hnil
    | none =>
        cases hw : Entries.get? fs (text n) with
        | none => exact .none
        | some w =>
            have hkey := (between_map h).1 _ (mem_keysOf hn hw)
            rw [Entries.get?_eq_none_iff, ← Entries.contains_text_iff] at hv
            exact absurd hkey hv
  · intro h
    have hnames : ∀ n, n ∈ shownNames es ↔ n ∈ shownNames fs := fun n => by
      rw [mem_shownNames_iff, mem_shownNames_iff]
      refine and_congr_left fun hn => ?_
      rw [← Entries.get?_isSome_iff, ← Entries.get?_isSome_iff]
      have := h n hn
      generalize Entries.get? es (text n) = v at this ⊢
      generalize Entries.get? fs (text n) = w at this ⊢
      cases this <;> simp
    have hentries : betweenEntries fs es = [] := by
      refine betweenEntries_eq_nil (IsIn.map_iff.1 hes).2.1 fun n v w hn hv hw => ?_
      have := h n hn
      rw [(Entries.get?_eq_some_iff hes.names_nodup).2 hv, hw] at this
      cases this
      assumption
    have hnone : ∀ (ks : List Value) (gs : Entries), (∀ k ∈ ks, Entries.contains gs k = true) →
        ks.filter (fun k => !Entries.contains gs k) = [] := fun ks gs hks =>
      List.filter_eq_nil_iff.2 fun k hk => by rw [hks k hk]; decide
    have hshared := fewShared_eq_false hes hfs hnames
    simp only [between, hshared, hentries, keysOf_eq hes, keysOf_eq hfs,
      hnone _ _ fun k hk => contains_iff hnames hk,
      hnone _ _ fun k hk => contains_iff (fun n => (hnames n).symm) hk, Bool.false_eq_true,
      if_false, List.map_nil, List.append_nil]

/-! ### Values -/

private theorem between_data (plain : isPlain v = true) (undated : v.IsUndated) :
    between v w = [] ↔ Unseen v w := by
  have hbetween : between v w = ofData v w := by
    cases v with
    | list | tuple | set | map => cases plain
    | _ => simp only [between]
  rw [hbetween, ofData_eq_nil_iff_same undated]
  refine ⟨fun h => .data plain h.1 h.2, fun h => ?_⟩
  cases h with
  | data _ kind same => exact ⟨kind, same⟩
  | _ => cases plain

private theorem between_items (hvs : ∀ v ∈ vs, v.IsIn .undated) :
    (if vs.all isPlain && ws.all isPlain then ofPlainLists vs ws else betweenItems 0 vs ws) = [] ↔
      (ArePlain vs ws ∧ SameItems vs ws) ∨
        (¬ ArePlain vs ws ∧ List.Forall₂ (fun v w => between v w = []) vs ws) := by
  by_cases plain : ArePlain vs ws
  · rw [if_pos (arePlain_iff.2 plain), ofPlainLists_eq_nil_iff_of_undated hvs plain]
    simp [plain]
  · rw [if_neg (mt arePlain_iff.1 plain), betweenItems_eq_nil_iff]
    simp [plain]

/-- No change is listed between two values exactly if they differ in nothing that shows. -/
theorem between_eq_nil_iff (hv : v.IsIn .undated) (hw : w.IsIn .undated) :
    between v w = [] ↔ Unseen v w := by
  induction hv generalizing w with
  | @scalar v hscalar undated =>
      refine between_data ?_ undated
      cases v <;> first | rfl | cases hscalar
  | @list vs items ih =>
      cases w with
      | list ws =>
          simp only [between]
          rw [between_items items, forall₂_congr_of_mem fun v hv w hmem =>
            ih v hv (IsIn.list_iff.1 hw w hmem)]
          refine ⟨fun h => h.elim (fun h => .plainList h.1 h.2) fun h => .list h.1 h.2, fun h => ?_⟩
          cases h with
          | data plain => cases plain
          | plainList plain same => exact .inl ⟨plain, same⟩
          | list compound items => exact .inr ⟨compound, items⟩
      | _ =>
          refine iff_of_false (by simp only [between]; exact here_ne_nil) fun h => ?_
          cases h with
          | data plain => cases plain
  | @tuple vs _ items ih =>
      cases w with
      | tuple ws =>
          simp only [between]
          rw [between_items items, forall₂_congr_of_mem fun v hv w hmem =>
            ih v hv (hw.tuple_items w hmem)]
          refine ⟨fun h => h.elim (fun h => .plainTuple h.1 h.2) fun h => .tuple h.1 h.2, fun h => ?_⟩
          cases h with
          | data plain => cases plain
          | plainTuple plain same => exact .inl ⟨plain, same⟩
          | tuple compound items => exact .inr ⟨compound, items⟩
      | _ =>
          refine iff_of_false (by simp only [between]; exact here_ne_nil) fun h => ?_
          cases h with
          | data plain => cases plain
  | @set vs _ _ _ =>
      simp only [between]
      rw [ofData_eq_nil_iff_same (v := .set vs) trivial]
      refine ⟨fun h => ?_, fun h => ?_⟩
      · obtain ⟨kind, same⟩ := h
        cases w with
        | set ws => exact .set same
        | _ => simp [Value.kindName] at kind
      · cases h with
        | data plain => cases plain
        | set same => exact ⟨rfl, same⟩
  | @map es names keys values ih =>
      have hes : (Value.map es).IsIn .undated := .map names keys values
      cases w with
      | map fs =>
          have hvalues : ∀ (n : String) v, Entries.get? es (text n) = some v →
              ∀ w, Entries.get? fs (text n) = some w → (between v w = [] ↔ Unseen v w) :=
            fun n v hv w hmem => ih (text n, v) (Entries.mem_of_get?_eq_some hv)
              (hw.of_mem (Entries.mem_of_get?_eq_some hmem))
          rw [between_map_eq_nil_iff hes hw, forall₂_congr fun n _ => rel_congr (hvalues n),
            Unseen.map_iff]
      | _ =>
          refine iff_of_false (by simp only [between]; exact here_ne_nil) fun h => ?_
          cases h with
          | data plain => cases plain

/-- Nothing differs from itself. -/
theorem Unseen.refl (hv : v.IsIn .undated) : Unseen v v := by
  have hforall : ∀ {R : Value → Value → Prop} {xs : List Value}, (∀ x ∈ xs, R x x) →
      List.Forall₂ R xs xs := fun h => List.forall₂_same.2 h
  induction hv with
  | @scalar v hscalar undated =>
      exact .data (by cases v <;> first | rfl | cases hscalar) rfl (Value.same_scalar hscalar)
  | @list xs items ih =>
      by_cases plain : ArePlain xs xs
      · exact .plainList plain (hforall fun x hx =>
          Value.same_self (items x hx).textKeyed_of_undated)
      · exact .list plain (hforall ih)
  | @tuple xs _ items ih =>
      by_cases plain : ArePlain xs xs
      · exact .plainTuple plain (hforall fun x hx =>
          Value.same_self (items x hx).textKeyed_of_undated)
      · exact .tuple plain (hforall ih)
  | @set xs node items _ =>
      exact .set (Value.same_self (IsIn.set node items).textKeyed_of_undated)
  | @map es names keys values ih =>
      refine .map fun n _ => ?_
      cases hget : Entries.get? es (text n) with
      | none => exact .none
      | some w => exact .some (ih _ (Entries.mem_of_get?_eq_some hget))

theorem differ_eq_false_iff (hv : v.IsIn .undated) (hw : w.IsIn .undated) :
    differ v w = false ↔ Unseen v w := by
  rw [differ, Bool.not_eq_false', List.isEmpty_iff, between_eq_nil_iff hv hw]

/-- Texts are told apart. -/
theorem Unseen.eq_text {a : String} (h : Unseen (text a) w) : w = text a := by
  cases h with
  | data _ _ same => exact Value.same_text_iff.1 same

/-- A mapping of which another one shows no difference has its texts under the names that count. -/
theorem Unseen.get?_text {a : String} (h : Unseen (.map es) w) (hn : isPrivate (text n) = false)
    (hv : Entries.get? es (text n) = some (text a)) : w.get? n = some (text a) := by
  cases h with
  | data plain => cases plain
  | @map _ fs entries =>
      have hrel := entries n hn
      rw [hv] at hrel
      change Entries.get? fs (text n) = some (text a)
      generalize Entries.get? fs (text n) = x at hrel
      cases hrel with
      | some hvalues => rw [hvalues.eq_text]

end Difference

end FormDesigner
