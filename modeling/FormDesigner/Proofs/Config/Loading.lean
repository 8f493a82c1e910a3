import FormDesigner.Config.Basic
import FormDesigner.Proofs.Field.View
import FormDesigner.Proofs.Yaml.Misfit
import FormDesigner.Proofs.Yaml.Reader

/-!
# What a configuration file comes to

A file of text gives a sound configuration: the settings that it has, and standard settings beside
them; or the standard configuration, if nothing can be made of it. Only faults of notation are
counted on, though. Numbers, times and characters that there are none of make loading fail, and so
do tags that do not fit what they stand before.
-/

namespace FormDesigner

open Result

namespace Yaml

end Yaml

namespace Config

open Value (text)

/-! ### Laying over -/

end Config

end FormDesigner
