import FormDesigner.Calendar.Date

/-!
# Which number is the year

Up to three numbers of a written date are its year, month and day. Some are known by the way they are
written: a name is a month, and more than two digits are a year. The others are told apart by their sizes
and by their order, where the month comes before the day if both are possible.
-/

namespace FormDesigner.WrittenDate

/-- The parts of a date that have been told apart. -/
structure Parts where
  year : Option Nat := none
  month : Option Nat := none
  day : Option Nat := none
deriving DecidableEq, Repr

/-- The numbers of a written date in the order in which they stand, and where its year and month are
known to stand. -/
structure Numbers where
  values : List Nat := []
  /-- Whether a year was written with its century. -/
  hasCentury : Bool := false
  yearAt : Option Nat := none
  monthAt : Option Nat := none

inductive PartName where
  | year | month
deriving DecidableEq, Repr

namespace Numbers

/-- Adds a number of which it may be known what it is. No part may be known twice. -/
def add? (ns : Numbers) (n : Nat) (name : Option PartName) : Option Numbers :=
  let i := ns.values.length
  let ns := { ns with values := ns.values ++ [n] }
  match name with
  | none => some ns
  | some .year => if ns.yearAt.isSome then none else some { ns with yearAt := some i }
  | some .month => if ns.monthAt.isSome then none else some { ns with monthAt := some i }

/-- Adds a number that is known to be a year, because of its size or the way it is written. -/
def addCentury? (ns : Numbers) (n : Nat) (name : Option PartName) : Option Numbers :=
  if name = some .month then none else { ns with hasCentury := true }.add? n (some .year)

def valueAt (ns : Numbers) (i : Nat) : Nat := ns.values.getD i 0

/-- The places of the parts that are known. -/
def taken (ns : Numbers) : List Nat := ns.yearAt.toList ++ ns.monthAt.toList

/-- The parts of numbers that are all known; of three, the day may be the one that is left. -/
def known (ns : Numbers) : Parts where
  year := ns.yearAt.map ns.valueAt
  month := ns.monthAt.map ns.valueAt
  day := ((List.range ns.values.length).find? fun i => !ns.taken.contains i).map ns.valueAt

/-- Numbers above this are no days. -/
def lastDay : Nat := 31

/-- The parts of a number that stands alone, or of a month's name and a number. -/
def single (ns : Numbers) : Parts :=
  match ns.monthAt, ns.values with
  | none, [n] => if lastDay < n then { year := some n } else { day := some n }
  | some i, [_] => { month := some (ns.valueAt i) }
  | some i, [a, b] =>
    let other := if i = 0 then b else a
    if lastDay < other then { year := some other, month := some (ns.valueAt i) }
    else { month := some (ns.valueAt i), day := some other }
  | _, _ => {}

def pair (a b : Nat) : Parts :=
  if lastDay < a then { year := some a, month := some b }
  else if lastDay < b then { month := some a, year := some b }
  else { month := some a, day := some b }

def triple (ns : Numbers) (a b c : Nat) : Parts :=
  let ymd (y m d : Nat) : Parts := ⟨some y, some m, some d⟩
  match ns.monthAt with
  | some 0 => if lastDay < b then ymd b a c else ymd c a b
  | some 1 => if lastDay < a then ymd a b c else ymd c b a
  | some _ => if lastDay < b then ymd b c a else ymd a c b
  | none =>
    if lastDay < a || ns.yearAt = some 0 then ymd a b c
    else if 12 < a then ymd c b a
    else ymd c a b

/-- The parts that numbers stand for; more than three stand for none. -/
def parts? (ns : Numbers) : Option Parts :=
  let count := ns.values.length
  let certain := ns.taken.length
  if (0 < count && count = certain) || (count = 3 && certain = 2) then some ns.known
  else
    match ns.values with
    | [] => some {}
    | [_] => some ns.single
    | [a, b] => some (if ns.monthAt.isSome then ns.single else pair a b)
    | [a, b, c] => some (ns.triple a b c)
    | _ => none

end Numbers

end FormDesigner.WrittenDate
