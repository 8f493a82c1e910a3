import FormDesigner.Failure
import FormDesigner.Text.Escaped
import FormDesigner.Text.Octets

/-!
# Files and folders

A path is a list of names below the working directory or below a root. Empty names and single dots
say nothing and are left out; double dots stay, because only the disk knows where they lead.

A disk lists what stands at which place. The working directory is always there; everything else
stands inside a folder. A path is followed name by name, so each name but the last must be that of a
folder.
-/

namespace FormDesigner

/-! ### Paths -/

structure Path where
  /-- What the path starts with if it does not start in the working directory. -/
  root : String
  names : List String
deriving DecidableEq, Repr

namespace Path

def rootOf (s : String) : String :=
  match s.toList.takeWhile (· = '/') with
  | [] => ""
  | ['/', '/'] => "//"
  | _ => "/"

def ofText (s : String) : Path :=
  ⟨rootOf s, (s.splitOn "/").filter fun name => name ≠ "" ∧ name ≠ "."⟩

def text (p : Path) : String :=
  if p.root = "" ∧ p.names = [] then "." else p.root ++ "/".intercalate p.names

/-- A path that continues another, unless it has a root of its own. -/
def join (p q : Path) : Path := if q.root = "" then ⟨p.root, p.names ++ q.names⟩ else q

/-- The path of something in a folder. -/
def child (p : Path) (name : String) : Path := p.join (.ofText name)

def parent (p : Path) : Path := { p with names := p.names.dropLast }

/-- The last name of a path. -/
def fileName (p : Path) : String := p.names.getLast?.getD ""

/-- The end of the last name from its last dot on. A dot at either end of the name does not
count. -/
def suffix (p : Path) : String :=
  let cs := p.fileName.toList
  let tail := (cs.reverse.takeWhile (· ≠ '.')).reverse
  if tail.isEmpty || cs.length ≤ tail.length + 1 then "" else String.ofList ('.' :: tail)

end Path

/-! ### Disks -/

/-- A place on a disk: the names of the folders that lead there, and its own. -/
abbrev Location := List String

inductive DiskNode where
  | file (octets : List UInt8)
  | folder
deriving DecidableEq, Repr

structure Disk where
  nodes : List (Location × DiskNode)

/-- Why the disk refuses something. -/
inductive DiskFault where
  | missing | taken | notFolder | isFolder | nameTooLong | nullCharacter
deriving DecidableEq, Repr

namespace DiskFault

/-- The number, kind and wording of a fault. -/
def report : DiskFault → Nat × FaultKind × String
  | .missing => (2, .missingFile, "No such file or directory")
  | .taken => (17, .fileExists, "File exists")
  | .notFolder => (20, .notDirectory, "Not a directory")
  | .isFolder => (21, .directory, "Is a directory")
  | .nameTooLong => (36, .system, "File name too long")
  | .nullCharacter => (0, .value, "embedded null byte")

def toFailure (p : Path) (f : DiskFault) : Failure :=
  let (number, kind, message) := f.report
  if f = .nullCharacter then .fault kind message
  else
    .fault kind ("[Errno " ++ toString number ++ "] " ++ message ++ ": " ++ Text.quoted p.text)

end DiskFault

namespace Disk

def empty : Disk := ⟨[]⟩

/-- What stands at a place. -/
def node? (d : Disk) (l : Location) : Option DiskNode :=
  if l = [] then some .folder else d.nodes.lookup l

/-- Puts something at a place, instead of what stood there. -/
def put (d : Disk) (l : Location) (n : DiskNode) : Disk :=
  ⟨(l, n) :: d.nodes.filter fun e => e.1 ≠ l⟩

def erase (d : Disk) (l : Location) : Disk := ⟨d.nodes.filter fun e => e.1 ≠ l⟩

/-- No name may have more octets than this. -/
def maxName : Nat := 255

/-- No path may have as many octets as this. -/
def maxPath : Nat := 4096

/-- Follows names from a place. What the last name leads to need not exist. -/
def follow (d : Disk) (l : Location) : List String → Except DiskFault Location
  | [] => .ok l
  | name :: names =>
    match d.node? l with
    | none => .error .missing
    | some (.file _) => .error .notFolder
    | some .folder =>
      if maxName < name.utf8ByteSize then .error .nameTooLong
      else follow d (if name = ".." then l.dropLast else l ++ [name]) names

/-- Where a path leads. -/
def locate (d : Disk) (p : Path) : Except DiskFault Location :=
  if p.text.contains '\x00' then .error .nullCharacter
  else if maxPath ≤ p.text.utf8ByteSize then .error .nameTooLong
  else d.follow [] p.names

def isFolder (d : Disk) (p : Path) : Bool :=
  match d.locate p with
  | .ok l => d.node? l = some .folder
  | .error _ => false

/-- Whether there is something at a path. -/
def contains (d : Disk) (p : Path) : Except DiskFault Bool :=
  match d.locate p with
  | .ok l => .ok (d.node? l).isSome
  | .error .nameTooLong => .error .nameTooLong
  | .error _ => .ok false

/-- The octets of a file. -/
def read (d : Disk) (p : Path) : Except DiskFault (List UInt8) := do
  match d.node? (← d.locate p) with
  | none => .error .missing
  | some .folder => .error .isFolder
  | some (.file octets) => .ok octets

/-- Writes a file in an existing folder. -/
def write (d : Disk) (p : Path) (octets : List UInt8) : Except DiskFault Disk := do
  let l ← d.locate p
  if d.node? l = some .folder then .error .isFolder else .ok (d.put l (.file octets))

/-- Removes a file. -/
def remove (d : Disk) (p : Path) : Except DiskFault Disk := do
  let l ← d.locate p
  match d.node? l with
  | none => .error .missing
  | some .folder => .error .isFolder
  | some (.file _) => .ok (d.erase l)

/-- Makes a folder in an existing folder. -/
def makeFolder (d : Disk) (p : Path) : Except DiskFault Disk := do
  let l ← d.locate p
  if (d.node? l).isSome then .error .taken else .ok (d.put l .folder)

/-- Makes a folder unless there is one already. -/
def ensureFolder (d : Disk) (p : Path) : Except DiskFault Disk :=
  match d.makeFolder p with
  | .ok d => .ok d
  | .error .missing => .error .missing
  | .error f => if d.isFolder p then .ok d else .error f

/-- Makes the folder whose names these are, last name first, and the folders that lead there. Folders
that were made stay when a later one cannot be made. -/
def ensureFolders (d : Disk) (root : String) : List String → Except DiskFault Unit × Disk
  | [] => (.ok (), d)
  | name :: names =>
    let p : Path := ⟨root, (name :: names).reverse⟩
    match d.ensureFolder p with
    | .ok d => (.ok (), d)
    | .error .missing =>
      match d.ensureFolders root names with
      | (.error f, d) => (.error f, d)
      | (.ok _, d) =>
        match d.ensureFolder p with
        | .ok d => (.ok (), d)
        | .error f => (.error f, d)
    | .error f => (.error f, d)

/-- Makes the folder at a path and the folders that lead there. -/
def makeFolders (d : Disk) (p : Path) : Except DiskFault Unit × Disk :=
  d.ensureFolders p.root p.names.reverse

/-- Writes a file, and makes the folder for it if need be. A file that cannot be written is not. -/
def place (d : Disk) (p : Path) (octets : List UInt8) : Disk :=
  let (_, d) := d.makeFolders p.parent
  (d.write p octets).toOption.getD d

/-- The names of what stands in a folder. -/
def namesIn (d : Disk) (p : Path) : Except DiskFault (List String) := do
  let l ← d.locate p
  match d.node? l with
  | none => .error .missing
  | some (.file _) => .error .notFolder
  | some .folder => .ok ((d.nodes.filter fun e => e.1 ≠ [] ∧ e.1.dropLast = l).filterMap (·.1.getLast?))

end Disk

/-- Text in a file that is not UTF-8. -/
def Failure.undecodable : Failure := .fault .decoding ""

end FormDesigner
