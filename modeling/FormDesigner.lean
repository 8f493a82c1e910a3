import FormDesigner.App
import FormDesigner.Calendar.Date
import FormDesigner.Calendar.Iso
import FormDesigner.Calendar.Written.Parts
import FormDesigner.Calendar.Written.Reader
import FormDesigner.Calendar.Written.Token
import FormDesigner.Config.Basic
import FormDesigner.Designer.Inspector
import FormDesigner.Designer.Page
import FormDesigner.Expression.Compile
import FormDesigner.Expression.Evaluate
import FormDesigner.Expression.Parser
import FormDesigner.Expression.Token
import FormDesigner.Expression.Tree
import FormDesigner.Failure
import FormDesigner.Field.Basic
import FormDesigner.Field.Factory
import FormDesigner.Field.Tree
import FormDesigner.Form.Validation
import FormDesigner.Form.Values
import FormDesigner.Json.Reader
import FormDesigner.Json.Writer
import FormDesigner.Number.Binary64
import FormDesigner.Number.Decimal
import FormDesigner.Number.Mixed
import FormDesigner.Page.Drawing
import FormDesigner.Page.Element
import FormDesigner.Pattern.Tree
import FormDesigner.Pattern.Matcher
import FormDesigner.Pattern.Reader
import FormDesigner.Preview.Page
import FormDesigner.Preview.Widget
import FormDesigner.Proofs.Expression.Complaint
import FormDesigner.Proofs.Expression.Concat
import FormDesigner.Proofs.Expression.Evaluation
import FormDesigner.Proofs.Expression.Grammar
import FormDesigner.Proofs.Expression.Parsing
import FormDesigner.Proofs.Expression.Phrase
import FormDesigner.Proofs.Field.Factory
import FormDesigner.Proofs.Field.Fits
import FormDesigner.Proofs.Field.Tree
import FormDesigner.Proofs.Field.View
import FormDesigner.Proofs.Form.Names
import FormDesigner.Proofs.Form.Report
import FormDesigner.Proofs.Form.Spot
import FormDesigner.Proofs.Json.Image
import FormDesigner.Proofs.Json.Reader
import FormDesigner.Proofs.Json.RoundTrip
import FormDesigner.Proofs.Json.Scalar
import FormDesigner.Proofs.Number.Decimal
import FormDesigner.Proofs.Number.Remainder
import FormDesigner.Proofs.Number.Rounding
import FormDesigner.Proofs.Result
import FormDesigner.Proofs.Schema.Document
import FormDesigner.Proofs.Schema.Range
import FormDesigner.Proofs.Schema.Shape
import FormDesigner.Proofs.Store.Course
import FormDesigner.Proofs.Store.Export
import FormDesigner.Proofs.Store.History
import FormDesigner.Proofs.Store.Interruption
import FormDesigner.Proofs.Store.Keeping
import FormDesigner.Proofs.Store.Opening
import FormDesigner.Proofs.Store.Reachable
import FormDesigner.Proofs.Store.Refusal
import FormDesigner.Proofs.Store.Reopening
import FormDesigner.Proofs.Store.Saving
import FormDesigner.Proofs.Store.Soundness
import FormDesigner.Proofs.Store.Timeline
import FormDesigner.Proofs.Value.Domain
import FormDesigner.Proofs.Value.Entries
import FormDesigner.Proofs.Work
import FormDesigner.Proofs.Yaml.Reader
import FormDesigner.Report.Display
import FormDesigner.Report.Message
import FormDesigner.Schema.Changes
import FormDesigner.Schema.Document
import FormDesigner.Schema.File
import FormDesigner.Schema.Shape
import FormDesigner.Schema.Source
import FormDesigner.Session.Basic
import FormDesigner.Shortcut.Binding
import FormDesigner.Storage.Basic
import FormDesigner.Storage.Disk
import FormDesigner.Store.Basic
import FormDesigner.Store.Clipboard
import FormDesigner.Store.Command
import FormDesigner.Store.Edits
import FormDesigner.Store.History
import FormDesigner.Store.Outcome
import FormDesigner.Store.Patch
import FormDesigner.Store.Restore
import FormDesigner.Text.Octets
import FormDesigner.Text.Character
import FormDesigner.Text.Escaped
import FormDesigner.Text.Letter
import FormDesigner.Text.Numeral
import FormDesigner.Text.Printable
import FormDesigner.Text.Word
import FormDesigner.Value.Basic
import FormDesigner.Value.Difference
import FormDesigner.Value.Display
import FormDesigner.Value.Equality
import FormDesigner.Work
import FormDesigner.Yaml.Node
import FormDesigner.Yaml.Reader
import FormDesigner.Yaml.Scalar
import FormDesigner.Yaml.Token
import FormDesigner.Yaml.Writer
import FormDesigner.Proofs.Expression.Reading
import FormDesigner.Proofs.Expression.Dependence
import FormDesigner.Proofs.Schema.RoundTrip
import FormDesigner.Proofs.Form.Visibility
import FormDesigner.Proofs.Value.Writing
import FormDesigner.Proofs.Field.Rules
import FormDesigner.Proofs.Form.Checking
import FormDesigner.Proofs.Store.Narrowing
import FormDesigner.Proofs.Form.Items
import FormDesigner.Proofs.Stateful
import FormDesigner.Proofs.Yaml.Scanning
import FormDesigner.Proofs.Yaml.Assembling
import FormDesigner.Proofs.Yaml.Misfit
import FormDesigner.Proofs.Store.Upload
import FormDesigner.Proofs.Yaml.Folding
import FormDesigner.Proofs.Yaml.Spelling
import FormDesigner.Proofs.Yaml.Layout
import FormDesigner.Proofs.Yaml.Passing
import FormDesigner.Proofs.Yaml.Unfolding
import FormDesigner.Proofs.Yaml.Words
import FormDesigner.Proofs.Yaml.Turns
import FormDesigner.Proofs.Yaml.Standing
import FormDesigner.Proofs.Yaml.Tokens
import FormDesigner.Proofs.Yaml.Leaves
import FormDesigner.Proofs.Yaml.Composing
import FormDesigner.Proofs.Schema.Keys
import FormDesigner.Proofs.Yaml.Documents
import FormDesigner.Proofs.Schema.Files
import FormDesigner.Proofs.Config.Loading
import FormDesigner.Proofs.Page.Drawing
import FormDesigner.Proofs.Preview.Drawing
import FormDesigner.Proofs.Preview.Errors
import FormDesigner.Proofs.Form.Agreement
import FormDesigner.Proofs.Preview.Widget
import FormDesigner.Proofs.Preview.Redrawing
import FormDesigner.Proofs.Designer.Untouched
import FormDesigner.Proofs.Store.Updating
import FormDesigner.Proofs.Store.Pasting
import FormDesigner.Proofs.Store.Removing
import FormDesigner.Proofs.Store.Applying
import FormDesigner.Proofs.Store.Framing
import FormDesigner.Proofs.Store.Moving
import FormDesigner.Proofs.Store.Repeating
import FormDesigner.Proofs.Store.Commuting
import FormDesigner.Proofs.Field.Retyping
import FormDesigner.Proofs.Store.Rekeying
import FormDesigner.Proofs.Store.LastChange
import FormDesigner.Proofs.Form.Computing
import FormDesigner.Proofs.Schema.Listed
import FormDesigner.Proofs.Designer.Reading
import FormDesigner.Proofs.Expression.Reference
import FormDesigner.Proofs.Shortcut.Wiring
import FormDesigner.Proofs.Field.Duplicates
import FormDesigner.Proofs.Schema.Agreement
import FormDesigner.Proofs.Field.Inserting
import FormDesigner.Proofs.Expression.Tiling
import FormDesigner.Proofs.Shortcut.Canonical
