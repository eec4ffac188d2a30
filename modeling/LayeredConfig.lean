import LayeredConfig.FileSystem.Tree
import LayeredConfig.Main
import LayeredConfig.Source.Encoding
import LayeredConfig.Proofs.Document.AssignmentLines
import LayeredConfig.Proofs.Document.Comments
import LayeredConfig.Proofs.Document.LineForms
import LayeredConfig.Proofs.Document.SchemaHeaders
import LayeredConfig.Proofs.Rule.Chains
import LayeredConfig.Proofs.Rule.Parser
import LayeredConfig.Proofs.Rule.Spelling
import LayeredConfig.Proofs.Schema.Diagnosis
import LayeredConfig.Proofs.Schema.Extension
import LayeredConfig.Proofs.Schema.Patterns
import LayeredConfig.Proofs.Schema.Reordering
import LayeredConfig.Proofs.Section.Associativity
import LayeredConfig.Proofs.Section.Capture
import LayeredConfig.Proofs.Section.Conflicts
import LayeredConfig.Proofs.Section.Evaluation
import LayeredConfig.Proofs.Section.Following
import LayeredConfig.Proofs.Section.Levels
import LayeredConfig.Proofs.Section.ReferenceErrors
import LayeredConfig.Proofs.Session.Completion
import LayeredConfig.Proofs.Session.Finality
import LayeredConfig.Proofs.Session.ImmediateFailures
import LayeredConfig.Proofs.Session.Layering
import LayeredConfig.Proofs.Session.Permissions
import LayeredConfig.Proofs.Session.PlainDocuments
import LayeredConfig.Proofs.Session.PlainReferences
import LayeredConfig.Proofs.Session.Protection
import LayeredConfig.Proofs.Session.Machine
import LayeredConfig.Proofs.Session.RoundTrip
import LayeredConfig.Proofs.Session.OpenSections
import LayeredConfig.Proofs.Session.SectionFlags
import LayeredConfig.Proofs.Session.BackTraces
import LayeredConfig.Proofs.Session.Transparency
import LayeredConfig.Proofs.Template.Tokens
import LayeredConfig.Proofs.Template.SourceForm
import LayeredConfig.Proofs.Source.Location
import LayeredConfig.Proofs.OrderedMap.History
import LayeredConfig.Document.Cursor
import LayeredConfig.Proofs.Document.Advance
import LayeredConfig.Proofs.Session.Reuse
