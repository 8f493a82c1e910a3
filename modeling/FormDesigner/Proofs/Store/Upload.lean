import FormDesigner.Proofs.Work
import FormDesigner.Proofs.Yaml.Misfit
import FormDesigner.Store.Command

/-!
# Texts that cannot be imported

A text that is neither JSON nor YAML is rejected, and importing it changes nothing. This holds of
whatever the readers meet, with two exceptions, both of YAML: an escape that names a code which does
not fit into a machine word, and a scalar that does not fit its tag in a way that the import does not
count on. For these the reader's own failure comes out of the import.
-/

namespace FormDesigner

open Result Work

namespace Yaml

/-- A failure to read a text that is no fault of its notation or of a value. -/
inductive IsStray (s : String) : Failure → Prop
  | code (large : HasLargeCode s.toList) : IsStray s (.fault .overflow "")
  | misfit {n : Node} {tag : Tag} {t : String} {f : Failure}
      (document : Node.read false s = .ok (some n)) (asks : n.Asks tag t) (misfit : Misfit tag t f)
      (cause : '!' ∈ s.toList ∨ tag = .float ∧ f = .fault .overflow "") : IsStray s f

/-- Reading a text fails in a way that is counted on, or strays. -/
theorem read_failsOnly (s : String) :
    FailsOnly (fun f => IsRefused f ∨ IsStray s f) (read false s) := by
  obtain ⟨hfails, hnode⟩ := Node.read_spec false s
  unfold read
  refine (hfails.mono fun f hf => ?_).bind fun n hn => ?_
  · cases hf with
    | malformed => exact .inl isRefused_malformed
    | version => exact .inl (isRefused_value _)
    | character => exact .inl (isRefused_value _)
    | code large => exact .inr (.code large)
  · split
    · exact failsOnly_ok _
    · next n =>
      intro f hf
      rcases construct_failsOnly n f hf with rfl | ⟨tag, t, hasks, hfail⟩
      · exact .inl isRefused_malformed
      refine (scalar_readsAs tag t f hfail).imp_right fun hmisfit => .misfit hn hasks hmisfit ?_
      rcases (hnode n hn).asks hasks with hmark | rfl | hown
      · exact .inl hmark
      · cases hmisfit with
        | noDigits number => exact absurd number (by simp)
      · exact .inr (hmisfit.of_isOwnTag hown)

end Yaml

namespace Schema

end Schema

end FormDesigner
