import FormDesigner.Proofs.Designer.Defaults
import FormDesigner.Proofs.Yaml.Misfit

/-!
# Default values that are typed

A text that is typed as a default value is read as YAML, or kept as it is if it is no YAML. What the
field may hold is null, a single value, or a list of single values. The tags in the document decide
whether that is what it comes to; anything else that is YAML is passed on as it is read, and a fault
of content is passed on as well.
-/

namespace FormDesigner

/-- Truth values, numbers and text. -/
def Value.IsSingle : Value → Prop
  | .bool _ | .int _ | .float _ | .text _ => True
  | _ => False

namespace Shape

variable {v : Value}

end Shape

namespace Yaml

open Shape (scalar scalarList)

/-! ### What a document comes to -/

/-- The tags of truth values, numbers and text. -/
def Tag.isSingle : Tag → Bool
  | .bool | .int | .float | .text => true
  | _ => false

/-- A node and what it comes to. -/
inductive Node.Yields : Node → Value → Prop
  | single {n : Node} {v : Value} (tag : (tagOf n).isSingle = true) (value : v.IsSingle) : Yields n v
  | null {n : Node} (tag : tagOf n = .null) : Yields n .null
  | items {ns : List Node} {xs : List Value} (each : constructAll ns = .ok xs) :
      Yields (.list .list ns) (.list xs)
  | pairs {tag : Tag} {ns : List Node} {xs : List Value} (htag : tag = .orderedMap ∨ tag = .pairs)
      (each : constructPairs ns = .ok xs) : Yields (.list tag ns) (.list xs)
  | other {n : Node} {v : Value}
      (tag : tagOf n = .binary ∨ tagOf n = .timestamp ∨ tagOf n = .map ∨ tagOf n = .set)
      (value : Shape.optional Shape.defaultValue v ≠ []) : Yields n v

variable {n : Node} {v : Value} {s : String}

end Yaml

namespace Inspector

open Text (trim)
open Yaml (Node construct)

end Inspector

end FormDesigner
