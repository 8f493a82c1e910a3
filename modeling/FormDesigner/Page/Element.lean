import FormDesigner.Value.Equality

/-!
# What a page shows

A page is a sequence of elements: texts, widgets and the containers that they are grouped in. An element
has a kind, unnamed contents and named properties.

A table has named columns and rows with a cell for each. What a table is made from need not be even: a
record without an entry for a column leaves the cell empty. A column in which all cells are numbers or
empty, and not all of them are integers, is a column of floating-point numbers.
-/

namespace FormDesigner

/-! ### Elements -/

structure Element where
  kind : String
  contents : List Value
  properties : List (String × Value)

namespace Element

/-- An element that only shows a text. -/
def line (kind s : String) : Element := ⟨kind, [.text s], []⟩

def error (s : String) : Element := line "error" s
def warning (s : String) : Element := line "warning" s
def info (s : String) : Element := line "info" s
def success (s : String) : Element := line "success" s
def caption (s : String) : Element := line "caption" s
def write (s : String) : Element := line "write" s
def markdown (s : String) : Element := line "markdown" s
def title (s : String) : Element := line "title" s
def header (s : String) : Element := line "header" s
def subheader (s : String) : Element := line "subheader" s
def expander (s : String) : Element := line "expander" s
def code (s : String) : Element := line "code" s
def divider : Element := ⟨"divider", [], []⟩

/-- Columns side by side that share the width evenly. -/
def evenColumns (count : Nat) : Element := ⟨"columns", [.int count], []⟩

/-- Columns side by side, each with its share of the width. -/
def columns (shares : List Int) : Element := ⟨"columns", [.list (shares.map .int)], []⟩

/-- A labelled figure. -/
def metric (label : String) (v : Value) : Element := ⟨"metric", [.text label, v], []⟩

/-- A value, written out. -/
def json (v : Value) : Element := ⟨"json", [v], []⟩

/-- A control with a label. -/
def control (kind label : String) (properties : List (String × Value)) : Element :=
  ⟨kind, [.text label], properties⟩

def property? (e : Element) (name : String) : Option Value := e.properties.lookup name

/-- What a control is known by: its key, or its label if it has none. -/
def name (e : Element) : Value := (e.property? "key").getD ((e.contents.head?).getD .null)

def isDisabled (e : Element) : Bool := ((e.property? "disabled").getD .null).isTrue

/-- The element as a value: its kind, its contents and its properties. -/
def toValue (e : Element) : Value := .list [.text e.kind, .list e.contents, .ofFields e.properties]

end Element

/-! ### Tables -/

structure Table where
  columns : List Value
  rows : List (List Value)

namespace Table

/-- A cell, where anything that means that there is nothing is null. -/
def cell : Value → Value
  | .float x => if x.isNan then .null else .float x
  | v => v

def isNumberOrEmpty : Value → Bool
  | .null | .int _ | .float _ => true
  | _ => false

def isInteger : Value → Bool
  | .int _ => true
  | _ => false

def integer? : Value → Option Int
  | .int n => some n
  | _ => none

/-- Half of the number of words of 64 bits. -/
def wordHalf : Int := 0x8000000000000000

/-- Whether integers fit into words of 64 bits together, be it words with a sign or without. -/
def fitTogether (ns : List Int) : Bool :=
  ns.all (fun n => -wordHalf ≤ n && n < 2 * wordHalf)
    && !(ns.any (· < 0) && ns.any fun n => wordHalf ≤ n)

def toFloat : Value → Value
  | .int n => ((Binary64.ofInt? n).map Value.float).getD (.int n)
  | v => v

/-- The cells of a column, which has one kind of number. -/
def column (cells : List Value) : List Value :=
  let integers := (cells.takeWhile fun v => !v.isNull).filterMap integer?
  if cells.all isNumberOrEmpty && !cells.all isInteger && fitTogether integers then
    cells.map fun v => cell (toFloat v)
  else cells.map cell

/-- The rows whose cells stand in these columns. -/
def rowsOf (count : Nat) (columns : List (List Value)) : List (List Value) :=
  (List.range count).map fun i => columns.map fun cells => (cells[i]?).getD .null

/-- A table of records, of which only the entries for the columns count. -/
def ofRecords (columns : List Value) (records : List Entries) : Table :=
  ⟨columns, rowsOf records.length (columns.map fun name =>
    column (records.map fun r => (Entries.get? r name).getD .null))⟩

/-- The names of the entries of records, in the order in which they first occur. -/
def namesIn (records : List Entries) : List Value :=
  records.foldl (fun names r =>
    (Entries.keys r).foldl (fun names k => if k.among names then names else names ++ [k]) names) []

/-- A table with one column, whose cells are of any kind. -/
def ofCells (name : Value) (cells : List Value) : Table := ⟨[name], cells.map fun v => [cell v]⟩

/-- The rows as records. -/
def records (t : Table) : List Entries := t.rows.map fun r => t.columns.zip r

def toValue (t : Table) : Value :=
  .ofFields [("columns", .list t.columns), ("rows", .list (t.rows.map .list))]

end Table

end FormDesigner
