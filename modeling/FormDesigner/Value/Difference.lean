import FormDesigner.Failure
import FormDesigner.Value.Equality

/-!
# Differences between values

What turns one value into another is listed as changes, each at a path from the root. Entries of
mappings are compared by kind and value; a mapping that shares too few keys with its counterpart
counts as changed as a whole, and keys that begin with two underscores do not count at all. Items of
lists are paired by their positions, except that lists of plain data are also aligned on what they
share, which is taken if it takes fewer changes.
-/

namespace FormDesigner

inductive ChangeKind where
  | valueChanged | typeChanged | entryAdded | entryRemoved | itemAdded | itemRemoved
deriving DecidableEq, Repr

namespace ChangeKind

def name : ChangeKind → String
  | .valueChanged => "values_changed"
  | .typeChanged => "type_changes"
  | .entryAdded => "dictionary_item_added"
  | .entryRemoved => "dictionary_item_removed"
  | .itemAdded => "iterable_item_added"
  | .itemRemoved => "iterable_item_removed"

def all : List ChangeKind :=
  [.valueChanged, .typeChanged, .entryAdded, .entryRemoved, .itemAdded, .itemRemoved]

end ChangeKind

/-- A step from a container to what it holds. -/
inductive PathStep where
  | entry (key : Value)
  | item (index : Nat)

structure Change where
  kind : ChangeKind
  path : List PathStep

namespace PathStep

/-- A text key between quotes that it does not hold itself, where there are such. -/
def quotedKey (s : String) : String := if s.contains '\'' then "\"" ++ s ++ "\"" else "'" ++ s ++ "'"

def text : PathStep → String
  | .entry (.text s) => "[" ++ quotedKey s ++ "]"
  | .entry k => "[" ++ (k.quoted?).getD "" ++ "]"
  | .item i => "[" ++ toString i ++ "]"

end PathStep

namespace Change

def under (step : PathStep) (c : Change) : Change := { c with path := step :: c.path }

def pathText (c : Change) : String := "root" ++ String.join (c.path.map PathStep.text)

end Change

namespace Difference

def here (kind : ChangeKind) : List Change := [⟨kind, []⟩]

def atStep (kind : ChangeKind) (step : PathStep) : Change := ⟨kind, [step]⟩

/-- The least share of common keys with which mappings are compared entry by entry, in hundredths. -/
def leastShare : Nat := 33

def isPrivate : Value → Bool
  | .text s => s.startsWith "__"
  | _ => false

/-- Data without parts. -/
def isPlain : Value → Bool
  | .list _ => false
  | .tuple _ => false
  | .set _ => false
  | .map _ => false
  | _ => true

/-- Whether two values of one kind without parts are the same datum. -/
def sameDatum (v w : Value) : Bool :=
  match v, w with
  | .moment s, .moment t =>
    s.localMicroseconds - s.offset.getD 0 == t.localMicroseconds - t.offset.getD 0
  | v, w => v.same w

/-! ### Alignment -/

/-- A run of items that two lists share: where it begins in each, and its length. -/
structure Run where
  left : Nat
  right : Nat
  size : Nat

/-- How long a run of common items begins at two positions. -/
def commonLength : List Value → List Value → Nat
  | v :: vs, w :: ws => if v.same w then 1 + commonLength vs ws else 0
  | _, _ => 0

/-- The longest run of common items in two stretches; of several, the one that begins first. -/
def longestRun (vs ws : List Value) : Run :=
  (List.range vs.length).foldl (fun best i =>
    (List.range ws.length).foldl (fun best j =>
      let size := commonLength (vs.drop i) (ws.drop j)
      if best.size < size then ⟨i, j, size⟩ else best) best) ⟨0, 0, 0⟩

/-- The runs that two lists share, found by taking out the longest one again and again. -/
def runs (left right : Nat) (vs ws : List Value) : Nat → List Run
  | 0 => []
  | fuel + 1 =>
    let r := longestRun vs ws
    if r.size == 0 then []
    else
      runs left right (vs.take r.left) (ws.take r.right) fuel
        ++ ⟨left + r.left, right + r.right, r.size⟩
          :: runs (left + r.left + r.size) (right + r.right + r.size)
            (vs.drop (r.left + r.size)) (ws.drop (r.right + r.size)) fuel

/-- A stretch between two shared runs. -/
structure Gap where
  left : Nat
  leftEnd : Nat
  right : Nat
  rightEnd : Nat

/-- The stretches around the shared runs of two lists, up to their ends. -/
def gaps (left right leftEnd rightEnd : Nat) : List Run → List Gap
  | [] => [⟨left, leftEnd, right, rightEnd⟩]
  | r :: rs => ⟨left, r.left, right, r.right⟩ :: gaps (r.left + r.size) (r.right + r.size) leftEnd rightEnd rs

/-! ### Changes -/

/-- Changes between two data without parts. -/
def ofData (v w : Value) : List Change :=
  if v.kindName ≠ w.kindName then here .typeChanged
  else if sameDatum v w then []
  else here .valueChanged

/-- Changes between two lists of plain data paired by position, the first pair being at two given
positions. -/
def ofPairedData (i j : Nat) : List Value → List Value → List Change
  | [], [] => []
  | _ :: vs, [] => atStep .itemRemoved (.item i) :: ofPairedData (i + 1) (j + 1) vs []
  | [], _ :: ws => atStep .itemAdded (.item j) :: ofPairedData (i + 1) (j + 1) [] ws
  | v :: vs, w :: ws => (ofData v w).map (Change.under (.item i)) ++ ofPairedData (i + 1) (j + 1) vs ws

/-- Changes between two aligned lists of plain data. -/
def ofAlignedData (vs ws : List Value) : List Change :=
  let found := runs 0 0 vs ws (vs.length + 1)
  (gaps 0 0 vs.length ws.length found).flatMap fun g =>
    ofPairedData g.left g.right
      ((vs.drop g.left).take (g.leftEnd - g.left)) ((ws.drop g.right).take (g.rightEnd - g.right))

/-- Changes between two lists of plain data, by whichever way takes fewer of them. -/
def ofPlainLists (vs ws : List Value) : List Change :=
  let aligned := ofAlignedData vs ws
  if aligned.length ≤ 1 then aligned
  else
    let paired := ofPairedData 0 0 vs ws
    if paired.length ≤ aligned.length then paired else aligned

/-- The keys of a mapping that count. -/
def keysOf (es : Entries) : List Value := (Entries.keys es).filter fun k => !isPrivate k

def fewShared (es fs : Entries) : Bool :=
  let keys := keysOf es
  let others := keysOf fs
  let shared := keys.filter fun k => k.among others
  let union := keys.length + others.length - shared.length
  1 < union && shared.length * 100 < leastShare * union

mutual

/-- The changes that turn one value into another. -/
def between : Value → Value → List Change
  | .map es, w =>
    match w with
    | .map fs =>
      if fewShared es fs then here .valueChanged
      else
        ((keysOf fs).filter fun k => !Entries.contains es k).map (fun k => atStep .entryAdded (.entry k))
          ++ ((keysOf es).filter fun k => !Entries.contains fs k).map
            (fun k => atStep .entryRemoved (.entry k))
          ++ betweenEntries fs es
    | _ => here .typeChanged
  | .list vs, w =>
    match w with
    | .list ws => if vs.all isPlain && ws.all isPlain then ofPlainLists vs ws else betweenItems 0 vs ws
    | _ => here .typeChanged
  | .tuple vs, w =>
    match w with
    | .tuple ws => if vs.all isPlain && ws.all isPlain then ofPlainLists vs ws else betweenItems 0 vs ws
    | _ => here .typeChanged
  | v, w => ofData v w

/-- The changes of the entries that a mapping has in common with another. -/
def betweenEntries (fs : Entries) : List (Value × Value) → List Change
  | [] => []
  | (k, v) :: es =>
    (if isPrivate k then []
      else
        match Entries.get? fs k with
        | some w => (between v w).map (Change.under (.entry k))
        | none => [])
    ++ betweenEntries fs es

/-- The changes of items paired by position. -/
def betweenItems (i : Nat) : List Value → List Value → List Change
  | [], [] => []
  | _ :: vs, [] => atStep .itemRemoved (.item i) :: betweenItems (i + 1) vs []
  | [], ws => ws.zipIdx.map fun (_, j) => atStep .itemAdded (.item (i + j))
  | v :: vs, w :: ws => (between v w).map (Change.under (.item i)) ++ betweenItems (i + 1) vs ws

end

/-- Whether two values differ in any way. -/
def differ (v w : Value) : Bool := !(between v w).isEmpty

/-- How many changes there are of some kinds. -/
def count (kinds : List ChangeKind) (cs : List Change) : Nat :=
  (cs.filter fun c => kinds.contains c.kind).length

/-- How many changes there are, by what they do. -/
structure Summary where
  modified : Nat
  added : Nat
  removed : Nat
  retyped : Nat
deriving DecidableEq, Repr

def Summary.toValue (s : Summary) : Value :=
  .ofFields [("modified", .int s.modified), ("added", .int s.added), ("removed", .int s.removed),
    ("type_changed", .int s.retyped)]

def summary (cs : List Change) : Summary :=
  ⟨count [.valueChanged] cs, count [.entryAdded, .itemAdded] cs,
    count [.entryRemoved, .itemRemoved] cs, count [.typeChanged] cs⟩

/-- The text key at which a change begins, if it is not empty and holds no quotes. -/
def attribute? (c : Change) : Option String :=
  match c.path with
  | .entry (.text s) :: _ => if s.isEmpty || s.contains '\'' || s.contains '"' then none else some s
  | _ => none

/-- Attributes under which a field owns other fields. -/
def owningAttributes : List String := ["children", "of"]

def withoutOwned (es : Entries) : Entries :=
  es.filter fun e => !owningAttributes.any fun n => (Value.text n).same e.1

/-- The attributes of a field that have changed, in the order of their names. What the field owns
does not count. -/
def attributes (old new : Entries) : List String :=
  let names := (between (.map (withoutOwned old)) (.map (withoutOwned new))).filterMap attribute?
  names.eraseDups.mergeSort fun a b => !(decide (b < a))

end Difference

end FormDesigner
