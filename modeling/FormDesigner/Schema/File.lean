import FormDesigner.Schema.Source
import FormDesigner.Storage.Basic
import FormDesigner.Yaml.Writer

/-!
# Schema files

Schemas are kept in JSON and YAML files, told apart by the ends of their names. Reading does not
depend on which of the two it is; writing does. A schema that is not valid is not written.
-/

namespace FormDesigner

namespace Schema

/-- The kinds of schema files. -/
inductive FileFormat where
  | json | yaml
deriving DecidableEq, Repr

def FileFormat.ofSuffix? (suffix : String) : Option FileFormat :=
  [(".json", FileFormat.json), (".yaml", .yaml), (".yml", .yaml)].lookup (Text.lower suffix)

def formatOf (p : Path) : Except Failure FileFormat :=
  match FileFormat.ofSuffix? p.suffix with
  | some f => .ok f
  | none => .error (.rejected ["Unsupported schema file format: " ++ p.suffix] none)

/-- A file that cannot be read is no schema; what it holds must be text. -/
def readText (d : Disk) (p : Path) : Except Failure String :=
  match d.read p with
  | .ok octets =>
    match Text.ofFile? octets with
    | some text => .ok text
    | none => .error .undecodable
  | .error .nullCharacter => .error (DiskFault.nullCharacter.toFailure p)
  | .error f =>
    .error (.rejected ["Cannot read schema file " ++ p.text ++ ": " ++ (f.toFailure p).message] none)

/-- The schema in a file. -/
def loadFile (d : Disk) (path : Value) : Except Failure Value := do
  let p ← Storage.pathOf path
  let _ ← formatOf p
  load (.text (← readText d p))

/-- The text of a schema in a format. -/
def fileText (format : FileFormat) (schema : Value) : Except Failure String :=
  match format with
  | .json => exportText schema
  | .yaml => Yaml.write .block schema

/-- Writes a schema to a file, in a folder that is made if need be. -/
def saveFile (path schema : Value) : Work Disk Unit := do
  let p ← Work.ofExcept (Storage.pathOf path)
  let format ← Work.ofExcept (formatOf p)
  let found ← Work.ofExcept (problems schema)
  if !found.isEmpty then throw (.rejected found (some "Refusing to save an invalid schema"))
  let made ← modifyGet fun d => d.makeFolders p.parent
  Work.ofExcept (Storage.checked p.parent made)
  let text ← Work.ofExcept (fileText format schema)
  set (← Work.ofExcept (Storage.checked p ((← get).write p (Text.toOctets text))))

end Schema

end FormDesigner
