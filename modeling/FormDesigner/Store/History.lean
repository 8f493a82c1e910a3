import FormDesigner.Json.Reader
import FormDesigner.Schema.Document
import FormDesigner.Work

/-!
# Undo and redo

A history keeps snapshots of schemas on two lists around the present one: the past, oldest first, and
the future, nearest first. Each list holds at most as many snapshots as the capacity says; when one is
full, the snapshot that is farthest from the present goes. A snapshot is the canonical text of a
schema, so that nothing that happens to the schema later can change it.
-/

namespace FormDesigner

/-- A schema as it was before an edit. -/
structure Snapshot where
  payload : String
  /-- The name of the edit. -/
  label : Value
  takenAt : Value

namespace Snapshot

def capture (now : String) (schema label : Value) : Except Failure Snapshot := do
  return ⟨← Schema.exportText schema, label, .text now⟩

/-- The schema of a snapshot. -/
def restore (s : Snapshot) : Except Failure Value := Json.parse s.payload

def toValue (s : Snapshot) : Except Failure Value := do
  return .ofFields [("schema", ← s.restore), ("label", s.label), ("takenAt", s.takenAt)]

/-- A snapshot that was written as a value. One without a time counts as taken now. -/
def ofValue (now : String) (v : Value) : Except Failure Snapshot := do
  let payload ← Schema.exportText (← v.entry "schema")
  let takenAt := v.getOrNull "takenAt"
  return ⟨payload, (v.get? "label").getD (.text ""), if takenAt.isTrue then takenAt else .text now⟩

end Snapshot

/-- How many snapshots each list of a history holds, and the value that said so. -/
structure Capacity where
  configured : Value
  size : Nat
  size_pos : 0 < size

namespace Capacity

def standard : Capacity := ⟨.int 50, 50, by decide⟩

def tooSmall : Failure := .fault .value "History capacity must be at least 1"

/-- No list can be made longer than this. -/
def greatest : Nat := 0x7fffffffffffffff

def ofInt (configured : Value) (n : Int) : Except Failure Capacity :=
  if h : 0 < n.toNat then
    if n.toNat ≤ greatest then .ok ⟨configured, n.toNat, h⟩ else .error (.fault .overflow "")
  else .error tooSmall

/-- A capacity that was given as a value. -/
def ofValue (v : Value) : Except Failure Capacity :=
  match v with
  | .int n => ofInt v n
  | .bool b => ofInt v (if b then 1 else 0)
  | .float x => if (Number.float x).lt (.int 1) then .error tooSmall else .error .wrongKind
  | _ => .error .wrongKind

end Capacity

/-- The last items of a list. -/
def newest {α : Type} (n : Nat) (xs : List α) : List α := xs.drop (xs.length - n)

theorem length_newest_le {α : Type} (n : Nat) (xs : List α) : (newest n xs).length ≤ n := by
  simp only [newest, List.length_drop]
  omega

structure History where
  capacity : Capacity
  past : List Snapshot
  future : List Snapshot
  past_le : past.length ≤ capacity.size
  future_le : future.length ≤ capacity.size

namespace History

def empty (capacity : Capacity) : History := ⟨capacity, [], [], Nat.zero_le _, Nat.zero_le _⟩

def canUndo (h : History) : Bool := !h.past.isEmpty

def canRedo (h : History) : Bool := !h.future.isEmpty

/-- Puts a snapshot next to the present, on the side of the past. -/
def pushPast (h : History) (s : Snapshot) : History :=
  { h with
    past := newest h.capacity.size (h.past ++ [s])
    past_le := length_newest_le _ _ }

/-- Puts a snapshot next to the present, on the side of the future. -/
def pushFuture (h : History) (s : Snapshot) : History :=
  { h with
    future := (s :: h.future).take h.capacity.size
    future_le := List.length_take_le _ _ }

/-- Puts a snapshot at the far end of the future; the nearest one goes when the list is full. -/
def extendFuture (h : History) (s : Snapshot) : History :=
  { h with
    future := newest h.capacity.size (h.future ++ [s])
    future_le := length_newest_le _ _ }

def dropPast (h : History) : History :=
  { h with
    past := h.past.dropLast
    past_le := by simp only [List.length_dropLast]; exact Nat.le_trans (Nat.sub_le _ _) h.past_le }

def dropFuture (h : History) : History :=
  { h with
    future := h.future.tail
    future_le := by simp only [List.length_tail]; exact Nat.le_trans (Nat.sub_le _ _) h.future_le }

def withoutFuture (h : History) : History :=
  { h with future := [], future_le := Nat.zero_le _ }

def clear (h : History) : History := empty h.capacity

/-- Notes that a schema is about to be replaced by an edit. What was undone before is forgotten. -/
def record (now : String) (previous label : Value) : Work History Unit := do
  let s ← Work.ofExcept (Snapshot.capture now previous label)
  modify fun h => (h.pushPast s).withoutFuture

/-- Steps back: the newest snapshot of the past takes the place of the present schema, which becomes
the nearest one of the future. -/
def undo (now : String) (present : Value) : Work History (Option Value) := do
  match (← get).past.getLast? with
  | none => return none
  | some s =>
    modify dropPast
    let current ← Work.ofExcept (Snapshot.capture now present s.label)
    modify fun h => h.pushFuture current
    return some (← Work.ofExcept s.restore)

/-- Steps forward: the nearest snapshot of the future takes the place of the present schema, which
becomes the newest one of the past. -/
def redo (now : String) (present : Value) : Work History (Option Value) := do
  match (← get).future with
  | [] => return none
  | s :: _ =>
    modify dropFuture
    let current ← Work.ofExcept (Snapshot.capture now present s.label)
    modify fun h => h.pushPast current
    return some (← Work.ofExcept s.restore)

/-- What a history looks like on its two sides. -/
def sides (past future : List Value) : Value :=
  .ofFields [("past", .list past), ("future", .list future)]

def labels (h : History) : Value := sides (h.past.map Snapshot.label) (h.future.map Snapshot.label)

/-- Whether there is something to undo, and whether there is something to redo. -/
def reach (h : History) : Value := .list [.bool h.canUndo, .bool h.canRedo]

def toValue (h : History) : Except Failure Value := do
  return sides (← h.past.mapM Snapshot.toValue) (← h.future.mapM Snapshot.toValue)

/-- Adds snapshots that were written as values. -/
def readAll (now : String) (push : History → Snapshot → History) (h : History) (entries : List Value) :
    Except Failure History :=
  entries.foldlM (fun h v => do return push h (← Snapshot.ofValue now v)) h

/-- A history that was written as a value. -/
def ofValue (now : String) (capacity : Capacity) (v : Value) : Except Failure History := do
  if !v.isMap then .error .noMember
  else
    let part (name : String) : Value := (v.get? name).getD (.list [])
    let h ← readAll now pushPast (empty capacity) (← (part "past").elements)
    readAll now extendFuture h (← (part "future").elements)

end History

end FormDesigner
