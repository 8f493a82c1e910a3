import FormDesigner.Proofs.Schema.RoundTrip
import FormDesigner.Proofs.Store.Reopening

/-!
# Histories that are read with another capacity

A history that was written as a value can be read with any capacity. Its snapshots are put in one
after the other, in the order in which they were written, and when a side is full the first of its
snapshots goes. On the side of the past that is the one farthest from the present, so that undoing
goes on where it was. On the side of the future it is the nearest one: what can still be redone are
the farthest snapshots, unless there is room for all of them.
-/

namespace FormDesigner

open Value (IsIn)

namespace Snapshot

/-- What becomes of a snapshot that is written as a value and read. -/
def reread (now : String) (u : Snapshot) : Except Failure Snapshot := do
  ofValue now (← u.toValue)

/-- A snapshot that can be kept is read as it was. -/
theorem IsKept.reread_eq {u : Snapshot} (hu : u.IsKept) (now : String) : u.reread now = .ok u := by
  obtain ⟨v, hv, -, hread⟩ := hu.exists_toValue
  rw [reread, hv]
  exact hread now

/-- A snapshot whose text is JSON can be written as a value and read: it has its label and the
canonical text of the same schema, and it is dated if it has no time. -/
theorem exists_reread {u : Snapshot} {schema : Value} (hu : u.restore = .ok schema)
    (now : String) : ∃ v u', u.toValue = .ok v ∧ ofValue now v = .ok u' ∧ u.reread now = .ok u' ∧
      Schema.exportText schema = .ok u'.payload ∧ u'.label = u.label ∧
      u'.takenAt = if u.takenAt.isTrue then u.takenAt else .text now := by
  have hreadable : schema.IsIn .readable := Json.isIn_of_parse hu
  obtain ⟨text, htext⟩ := (Json.write_isOk .canonical hreadable.textKeyed_of_readable).2
    hreadable.writable_of_readable
  have hget : ∀ n v, (n, v) ∈ [("schema", schema), ("label", u.label), ("takenAt", u.takenAt)] →
      (Value.ofFields _).get? n = some v := fun n v => Entries.get?_ofFields (by simp)
  have hvalue : u.toValue = .ok (.ofFields [("schema", schema), ("label", u.label),
      ("takenAt", u.takenAt)]) := by
    rw [toValue, hu]
    rfl
  have hread : ofValue now (.ofFields [("schema", schema), ("label", u.label),
      ("takenAt", u.takenAt)]) =
        .ok ⟨text, u.label, if u.takenAt.isTrue then u.takenAt else .text now⟩ := by
    rw [ofValue, Value.entry_eq_ok_iff.2 (hget "schema" schema (by simp)), Result.ok_bind,
      Schema.exportText, htext, Result.ok_bind, Value.getOrNull, hget "takenAt" u.takenAt (by simp),
      hget "label" u.label (by simp)]
    rfl
  refine ⟨_, _, hvalue, hread, ?_, htext, rfl, rfl⟩
  rw [reread, hvalue]
  exact hread

/-- There is a snapshot of every schema that JSON can carry. -/
theorem exists_of_isJson {schema : Value} (h : schema.IsJson) :
    ∃ u : Snapshot, u.IsKept ∧ u.restore = .ok schema.sortKeys := by
  obtain ⟨text, htext⟩ := Json.exists_write .canonical h
  have hrestore : Json.parse text = .ok (Json.image true schema) :=
    Json.parse_write h.textKeyed htext
  have hkept : IsKept ⟨text, .text "", .text "2024-01-02"⟩ :=
    ⟨⟨schema, h.textKeyed, htext⟩, .text _, .text _, rfl⟩
  refine ⟨_, hkept, ?_⟩
  rw [← Json.image_eq_sortKeys h]
  exact hrestore

end Snapshot

namespace History

variable {h : History} {us : List Snapshot}

/-! ### Which snapshots stay -/

/-- What has gone once makes no difference later. -/
theorem newest_newest_append {α : Type} (n : Nat) (xs ys : List α) :
    newest n (newest n xs ++ ys) = newest n (xs ++ ys) := by
  have hgone : xs.length - n ≤ xs.length := Nat.sub_le _ _
  unfold newest
  rw [← List.drop_append_of_le_length hgone, List.drop_drop]
  congr 1
  simp only [List.length_drop, List.length_append]
  omega

/-- The snapshots put next to the present on the side of the past push out the oldest ones. -/
theorem past_foldl_pushPast (h : History) (us : List Snapshot) :
    (us.foldl pushPast h).capacity = h.capacity ∧ (us.foldl pushPast h).future = h.future ∧
      (us.foldl pushPast h).past = newest h.capacity.size (h.past ++ us) := by
  induction us generalizing h with
  | nil =>
      refine ⟨rfl, rfl, ?_⟩
      rw [List.append_nil, newest_eq_self h.past_le]
      rfl
  | cons u us ih =>
      obtain ⟨hcapacity, hfuture, hpast⟩ := ih (h.pushPast u)
      refine ⟨hcapacity, hfuture, hpast.trans ?_⟩
      change newest h.capacity.size (newest h.capacity.size (h.past ++ [u]) ++ us) = _
      rw [newest_newest_append, List.append_assoc, List.singleton_append]

/-- The snapshots put at the far end of the future push out the nearest ones. -/
theorem future_foldl_extendFuture (h : History) (us : List Snapshot) :
    (us.foldl extendFuture h).capacity = h.capacity ∧ (us.foldl extendFuture h).past = h.past ∧
      (us.foldl extendFuture h).future = newest h.capacity.size (h.future ++ us) := by
  induction us generalizing h with
  | nil =>
      refine ⟨rfl, rfl, ?_⟩
      rw [List.append_nil, newest_eq_self h.future_le]
      rfl
  | cons u us ih =>
      obtain ⟨hcapacity, hpast, hfuture⟩ := ih (h.extendFuture u)
      refine ⟨hcapacity, hpast, hfuture.trans ?_⟩
      change newest h.capacity.size (newest h.capacity.size (h.future ++ [u]) ++ us) = _
      rw [newest_newest_append, List.append_assoc, List.singleton_append]

/-- Snapshots whose texts are JSON are written and read one after the other. -/
theorem exists_rereadAll (now : String) (hus : ∀ u ∈ us, ∃ schema, u.restore = .ok schema) :
    ∃ vs us', us.mapM Snapshot.toValue = .ok vs ∧ us.mapM (Snapshot.reread now) = .ok us' ∧
      ∀ push h, readAll now push h vs = .ok (us'.foldl push h) := by
  induction us with
  | nil => exact ⟨[], [], rfl, rfl, fun _ _ => rfl⟩
  | cons u us ih =>
      obtain ⟨⟨schema, hu⟩, hus⟩ := List.forall_mem_cons.1 hus
      obtain ⟨v, u', hv, hread, hreread, -⟩ := Snapshot.exists_reread hu now
      obtain ⟨vs, us', hvs, hrereads, hreads⟩ := ih hus
      refine ⟨v :: vs, u' :: us', Result.mapM_cons.2 ⟨v, vs, hv, hvs, rfl⟩,
        Result.mapM_cons.2 ⟨u', us', hreread, hrereads, rfl⟩, fun push h => ?_⟩
      rw [readAll, List.foldlM_cons, hread]
      exact hreads push (push h u')

/-- A history can be written as a value and read with any capacity if the texts of its snapshots are
JSON, and its snapshots can then be undone from the nearest one on. They can be redone from the
nearest one on if there is room for all of them; otherwise the first one that can be redone lies as
many steps before the end of the future as the capacity says. -/
theorem exists_narrowed (h : History) (now : String) (k : Capacity)
    (json : ∀ u ∈ h.snapshots, ∃ schema, u.restore = .ok schema) :
    ∃ v h' past future, h.toValue = .ok v ∧ ofValue now k v = .ok h' ∧ h'.capacity = k ∧
      h.past.mapM (Snapshot.reread now) = .ok past ∧
      h.future.mapM (Snapshot.reread now) = .ok future ∧
      h'.past = newest k.size past ∧ h'.future = newest k.size future ∧
      h'.nearest .past = past.getLast? ∧
      (future.length ≤ k.size → h'.nearest .future = future.head?) ∧
      (k.size < future.length → h'.nearest .future = future[future.length - k.size]?) := by
  obtain ⟨vs, past, hvs, hpast, hreadPast⟩ := exists_rereadAll now fun u (hu : u ∈ h.past) =>
    json u (List.mem_append_left _ hu)
  obtain ⟨ws, future, hws, hfuture, hreadFuture⟩ := exists_rereadAll now
    fun u (hu : u ∈ h.future) => json u (List.mem_append_right _ hu)
  obtain ⟨hcapacity₁, hfuture₁, hpast₁⟩ := past_foldl_pushPast (empty k) past
  obtain ⟨hcapacity₂, hpast₂, hfuture₂⟩ :=
    future_foldl_extendFuture (past.foldl pushPast (empty k)) future
  have hget : ∀ n v, (n, v) ∈ [("past", Value.list vs), ("future", Value.list ws)] →
      (sides vs ws).get? n = some v := fun n v => Entries.get?_ofFields (by simp)
  have hread : ofValue now k (sides vs ws) =
      .ok (future.foldl extendFuture (past.foldl pushPast (empty k))) := by
    have hmap : (sides vs ws).isMap = true := rfl
    rw [ofValue, hmap]
    dsimp only
    rw [hget "past" (.list vs) (by simp), hget "future" (.list ws) (by simp)]
    dsimp only [Option.getD_some, Value.elements]
    rw [Result.ok_bind, hreadPast, Result.ok_bind, Result.ok_bind]
    exact hreadFuture _ _
  have hsizeFuture : (past.foldl pushPast (empty k)).capacity = k := hcapacity₁
  rw [hsizeFuture, hfuture₁] at hfuture₂
  generalize future.foldl extendFuture _ = h' at hread hcapacity₂ hpast₂ hfuture₂
  have hpasts : h'.past = newest k.size past := hpast₂.trans hpast₁
  have hfutures : h'.future = newest k.size future := hfuture₂
  refine ⟨_, h', past, future, ?_, hread, hcapacity₂.trans hcapacity₁, hpast, hfuture, hpasts,
    hfutures, ?_, fun room => ?_, fun beyond => ?_⟩
  · rw [toValue, hvs, hws]
    rfl
  · change h'.past.getLast? = _
    rw [hpasts, newest, List.getLast?_drop]
    split
    · -- the capacity is positive, so that only an empty side loses all of its snapshots
      have hsize := k.size_pos
      have hnone : past = [] := List.length_eq_zero_iff.1 (by omega)
      rw [hnone, List.getLast?_nil]
    · rfl
  · change h'.future.head? = _
    rw [hfutures, newest_eq_self room]
  · change h'.future.head? = _
    rw [hfutures, newest, List.head?_drop]

/-- With room for one step, what is read of two steps that lie ahead is the second one, so that
redoing passes over the first. -/
theorem second_of_two_redone :
    ∃ (h h' : History) (first second : Snapshot) (v : Value), h.future = [first, second] ∧
      first.restore = .ok Schema.empty.sortKeys ∧
      second.restore = .ok Schema.oddSchema.sortKeys ∧ h.toValue = .ok v ∧
      ofValue "" ⟨.int 1, 1, by decide⟩ v = .ok h' ∧ h.nearest .future = some first ∧
      h'.nearest .future = some second := by
  obtain ⟨first, hfirst, hrestoreFirst⟩ := Snapshot.exists_of_isJson Schema.empty_isSound.isIn
  obtain ⟨second, hsecond, hrestoreSecond⟩ := Snapshot.exists_of_isJson Schema.oddSchema_isJson
  have hjson : ∀ u ∈ [first, second], ∃ schema, u.restore = .ok schema := by
    simp only [List.forall_mem_cons]
    exact ⟨⟨_, hrestoreFirst⟩, ⟨_, hrestoreSecond⟩, List.forall_mem_nil _⟩
  have hsame : [first, second].mapM (Snapshot.reread "") = .ok [first, second] :=
    Result.mapM_cons.2 ⟨_, _, hfirst.reread_eq "",
      Result.mapM_cons.2 ⟨_, _, hsecond.reread_eq "", rfl, rfl⟩, rfl⟩
  obtain ⟨v, h', past, future, hv, hread, -, -, hfuture, -, -, -, -, hbeyond⟩ :=
    exists_narrowed ⟨⟨.int 2, 2, by decide⟩, [], [first, second], Nat.zero_le _, Nat.le_refl _⟩ ""
      ⟨.int 1, 1, by decide⟩ hjson
  obtain rfl := Except.ok.inj (hsame.symm.trans hfuture)
  exact ⟨_, h', first, second, v, rfl, hrestoreFirst, hrestoreSecond, hv, hread, rfl,
    hbeyond (Nat.lt_succ_self 1)⟩

end History

end FormDesigner
