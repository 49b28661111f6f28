import ViewGen.Chunk.Basic
import ViewGen.Chunk.Order
import ViewGen.Compile.Expression
import ViewGen.Compile.Node
import ViewGen.Compile.Options
import ViewGen.Decimal.Reading
import ViewGen.Decimal.Shortest
import ViewGen.Decimal.Text
import ViewGen.Dict
import ViewGen.Document.Builder
import ViewGen.Document.Component
import ViewGen.Document.Decoding
import ViewGen.Document.Dependency
import ViewGen.Document.Encoding
import ViewGen.Document.Error
import ViewGen.Document.Location
import ViewGen.Document.Node
import ViewGen.Document.Scoping
import ViewGen.Document.Shape
import ViewGen.Document.Validity
import ViewGen.Document.Value
import ViewGen.Draft.Basic
import ViewGen.Draft.FunctionComponent
import ViewGen.Draft.Keys
import ViewGen.Draft.PropTypes
import ViewGen.Draft.Router
import ViewGen.Draft.Styles
import ViewGen.Draft.VueTemplate
import ViewGen.Error
import ViewGen.Framework
import ViewGen.Import.Declarations
import ViewGen.Import.Table
import ViewGen.Json.Basic
import ViewGen.Json.Printer
import ViewGen.Json.Reader
import ViewGen.Json.Record
import ViewGen.Naming
import ViewGen.Page.Index
import ViewGen.Page.Tag
import ViewGen.Page.Template
import ViewGen.Project.Basic
import ViewGen.Project.Component
import ViewGen.Project.Files
import ViewGen.Project.Options
import ViewGen.Project.Pages
import ViewGen.Project.Publishing
import ViewGen.Proofs.ChunkOrder
import ViewGen.Proofs.CompileArena
import ViewGen.Proofs.CompileSteps
import ViewGen.Proofs.CompileTotal
import ViewGen.Proofs.Dictionaries
import ViewGen.Proofs.DraftInvariants
import ViewGen.Proofs.ElementReferences
import ViewGen.Proofs.FreshNames
import ViewGen.Proofs.FunctionComponents
import ViewGen.Proofs.Generation
import ViewGen.Proofs.ImportHistory
import ViewGen.Proofs.LexicalScope
import ViewGen.Proofs.Resolution
import ViewGen.Proofs.TemplatePrinting
import ViewGen.Proofs.TemplateSteps
import ViewGen.Script.Basic
import ViewGen.Script.Literal
import ViewGen.Script.Printer
import ViewGen.Text.Blank
import ViewGen.Text.Entity
import ViewGen.Text.Fresh
import ViewGen.Text.Letter
import ViewGen.Text.Words
import ViewGen.Proofs.ImportStatements
import ViewGen.Proofs.ImportedExports
import ViewGen.Proofs.DeclarationOrder
import ViewGen.Proofs.ComponentImports
import ViewGen.Proofs.DeclaredNames
import ViewGen.Proofs.DeclaredUses
import ViewGen.Proofs.SortedTrees
import ViewGen.Proofs.DocumentRoundTrip
import ViewGen.Proofs.MarkupTags
import ViewGen.Proofs.TemplateTags
import ViewGen.Proofs.TagBindings
import ViewGen.Proofs.StateCapture
import ViewGen.Proofs.IndexPage
import ViewGen.Proofs.PageChecks
import ViewGen.Proofs.RouterPass
import ViewGen.Proofs.ProjectGeneration
import ViewGen.Proofs.ProjectFiles
import ViewGen.Proofs.ProjectEntry
import ViewGen.Proofs.LiteralDecoding
import ViewGen.Proofs.ScriptDecoding
import ViewGen.Proofs.RegistrationOrder
import ViewGen.Proofs.ManifestPackages
import ViewGen.Proofs.KeyAssignment
import ViewGen.Proofs.CompiledElements
import ViewGen.Proofs.InlineStyles
import ViewGen.Proofs.Arrangements
import ViewGen.Proofs.WellFormedArenas
import ViewGen.Proofs.ChunkCycles
import ViewGen.Proofs.ExpressionReader
import ViewGen.Proofs.PrintedTokens
import ViewGen.Proofs.PrintedStructure
import ViewGen.Proofs.FaultLocations
import ViewGen.Proofs.FreshKeys
import ViewGen.Proofs.ElementLookup
import ViewGen.Proofs.StructuralValidity
import ViewGen.Proofs.ConditionalTests
import ViewGen.Proofs.EventHandlers
import ViewGen.Proofs.StyleSheets
import ViewGen.Proofs.AttributeTexts
import ViewGen.Proofs.MarkupReading
import ViewGen.Proofs.StartTags
import ViewGen.Proofs.PlainNames
import ViewGen.Proofs.StaticTexts
import ViewGen.Proofs.DerivedNames
import ViewGen.Proofs.RuntimeImports
import ViewGen.Proofs.IndexMarkup
import ViewGen.Proofs.PinnedPackages
import ViewGen.Proofs.CandidateLoops
import ViewGen.Proofs.EmittedFiles
import ViewGen.Proofs.KebabNames
import ViewGen.Proofs.JsonText
import ViewGen.Proofs.EntryText
import ViewGen.Proofs.PendingCounters
import ViewGen.Proofs.ScopeStack
