import LayerLint.Main
import LayerLint.Proofs.Source.Lexeme
import LayerLint.Proofs.Source.Literal
import LayerLint.Source.Accelerator
import LayerLint.Source.Declaration
import LayerLint.Proofs.Pattern.Language
import LayerLint.Proofs.Pattern.Matching
import LayerLint.Proofs.Pattern.Search
import LayerLint.Proofs.Source.Quotation
import LayerLint.Proofs.Source.Reference
import LayerLint.Proofs.Dict
import LayerLint.Proofs.Text.Pieces
import LayerLint.Proofs.Placement
import LayerLint.Proofs.Rule.SharedModule
import LayerLint.Proofs.Source.Position
import LayerLint.Proofs.Layer
import LayerLint.Proofs.Rule.LayerDirection
import LayerLint.Proofs.ConsumerTrail
import LayerLint.Proofs.Pattern.Widening
import LayerLint.Proofs.Pattern.WideSearch
import LayerLint.Proofs.Source.Comment
import LayerLint.Proofs.Source.CommentedReference
import LayerLint.Proofs.Source.WidenedClause
import LayerLint.Proofs.Source.CommentedHook
import LayerLint.Proofs.Path.Order
import LayerLint.Proofs.Report
import LayerLint.Proofs.Path.Normal
import LayerLint.Proofs.Context.Listing
import LayerLint.Proofs.Path.Relative
import LayerLint.Proofs.Context.View
import LayerLint.Proofs.Context.Outside
import LayerLint.Proofs.Analysis
import LayerLint.Proofs.ModuleLocation
import LayerLint.Proofs.AliasTable
import LayerLint.Proofs.Path.Absolute
import LayerLint.Proofs.FileTree
import LayerLint.Proofs.Discovery.Marker
import LayerLint.Proofs.Discovery.Chain
import LayerLint.Proofs.Discovery.Aliases
import LayerLint.Proofs.Discovery
import LayerLint.Proofs.Json.Commented
import LayerLint.Proofs.Json.Pretty
import LayerLint.Proofs.Config.Json
import LayerLint.Proofs.Walk
import LayerLint.Proofs.FileTree.Insert
import LayerLint.Proofs.Discovery.NewFile
import LayerLint.Proofs.Context.NewFile
import LayerLint.Proofs.Command.Init
import LayerLint.Proofs.Rule.Switch
import LayerLint.Proofs.AliasHistory
import LayerLint.Proofs.Glob
import LayerLint.Proofs.Path.Join
import LayerLint.Proofs.Specifier
import LayerLint.Proofs.AliasPriority
import LayerLint.Proofs.Source.Callee
import LayerLint.Proofs.Source.HookCall
import LayerLint.Proofs.Source.GenericDeclaration
import LayerLint.Proofs.Pattern.Respelling
import LayerLint.Proofs.Source.Respelled
import LayerLint.Proofs.Source.LineEnding
import LayerLint.Proofs.Path.Composition
import LayerLint.Proofs.Text.ByteOrder
import LayerLint.Proofs.AliasResolution
import LayerLint.Proofs.Source.CodePiece
import LayerLint.Proofs.Source.DeclarationSite
import LayerLint.Proofs.Pattern.Written
import LayerLint.Proofs.Source.ClauseNames
import LayerLint.Proofs.Source.RouterClause
import LayerLint.Proofs.Source.JustifiedCall
import LayerLint.Proofs.Path.RelativeForm
import LayerLint.Proofs.Context.Candidate
import LayerLint.Proofs.Path.LastComponent
import LayerLint.Proofs.NameSuffix
import LayerLint.Proofs.Text.Position
import LayerLint.Proofs.Json.TwoPasses
import LayerLint.Proofs.Path.Entry
import LayerLint.Proofs.Rule.NestedLayer
import LayerLint.Proofs.FileTree.Unambiguous
import LayerLint.Proofs.Context.Listed
import LayerLint.Proofs.Rule.FindingPosition
import LayerLint.Proofs.FileName
import LayerLint.Proofs.Rule.ModuleForm
import LayerLint.Proofs.Path.LastSegment
import LayerLint.Proofs.Json.Edit
import LayerLint.Proofs.Rule.Naming
import LayerLint.Proofs.Config.Settings
import LayerLint.Proofs.Config.Change
import LayerLint.Proofs.Report.Views
import LayerLint.Proofs.Text.Slice
import LayerLint.Proofs.Source.QuotedGroup
