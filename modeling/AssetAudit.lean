import AssetAudit.Analysis.Definition
import AssetAudit.Analysis.Element
import AssetAudit.Analysis.Global
import AssetAudit.Analysis.Listener
import AssetAudit.Analysis.Style
import AssetAudit.Asset
import AssetAudit.CommandLine.Arguments
import AssetAudit.CommandLine.Help
import AssetAudit.CommandLine.Run
import AssetAudit.Configuration
import AssetAudit.Dependency.Collect
import AssetAudit.Dependency.Graph
import AssetAudit.Dependency.Reference
import AssetAudit.Dependency.Specifier
import AssetAudit.DisableComment
import AssetAudit.Disk
import AssetAudit.Error
import AssetAudit.Ignore
import AssetAudit.Issue
import AssetAudit.Issue.Json
import AssetAudit.Json.Number
import AssetAudit.Json.Reader
import AssetAudit.Json.Value
import AssetAudit.Json.Writer
import AssetAudit.License
import AssetAudit.Main
import AssetAudit.Options
import AssetAudit.Page.Element
import AssetAudit.Page.Facts
import AssetAudit.Page.Reader
import AssetAudit.Path
import AssetAudit.Proofs.AbsolutePath
import AssetAudit.Proofs.AnonymousReport
import AssetAudit.Proofs.AppendedRule
import AssetAudit.Proofs.ArgumentText
import AssetAudit.Proofs.AssetOrder
import AssetAudit.Proofs.AssignedName
import AssetAudit.Proofs.BlankText
import AssetAudit.Proofs.BoundHandler
import AssetAudit.Proofs.ClassExclusion
import AssetAudit.Proofs.CommentPlace
import AssetAudit.Proofs.CursorPlace
import AssetAudit.Proofs.DefinitionKey
import AssetAudit.Proofs.DefinitionLookup
import AssetAudit.Proofs.DepthLimit
import AssetAudit.Proofs.DirectoryCover
import AssetAudit.Proofs.DisabledAsset
import AssetAudit.Proofs.DisabledLine
import AssetAudit.Proofs.DiskPlace
import AssetAudit.Proofs.EmittedIssue
import AssetAudit.Proofs.FileOrder
import AssetAudit.Proofs.FlaggedSelector
import AssetAudit.Proofs.FollowedReference
import AssetAudit.Proofs.GlobLanguage
import AssetAudit.Proofs.GroupedIssue
import AssetAudit.Proofs.HeldToken
import AssetAudit.Proofs.IgnoredIssue
import AssetAudit.Proofs.ImportedHandler
import AssetAudit.Proofs.InlineMap
import AssetAudit.Proofs.JsonText
import AssetAudit.Proofs.LicenseComment
import AssetAudit.Proofs.LicenseLayout
import AssetAudit.Proofs.LicenseSearch
import AssetAudit.Proofs.LineRule
import AssetAudit.Proofs.LineTable
import AssetAudit.Proofs.LinkRelation
import AssetAudit.Proofs.ListedFact
import AssetAudit.Proofs.ListedSource
import AssetAudit.Proofs.LiteralContent
import AssetAudit.Proofs.LocatedPlace
import AssetAudit.Proofs.LookupInterleaving
import AssetAudit.Proofs.LowerCase
import AssetAudit.Proofs.MappedSpan
import AssetAudit.Proofs.MergedIssue
import AssetAudit.Proofs.MovedProject
import AssetAudit.Proofs.NodeFact
import AssetAudit.Proofs.NodeForm
import AssetAudit.Proofs.NodeOrder
import AssetAudit.Proofs.NodeShape
import AssetAudit.Proofs.OtherEvent
import AssetAudit.Proofs.PageName
import AssetAudit.Proofs.PageTag
import AssetAudit.Proofs.PathForm
import AssetAudit.Proofs.PathPlace
import AssetAudit.Proofs.PathSpelling
import AssetAudit.Proofs.PlaceOrder
import AssetAudit.Proofs.PlainReference
import AssetAudit.Proofs.PropertyName
import AssetAudit.Proofs.QuickCheck
import AssetAudit.Proofs.QuotedCode
import AssetAudit.Proofs.QuotedSelector
import AssetAudit.Proofs.ReadingOption
import AssetAudit.Proofs.ReferenceSearch
import AssetAudit.Proofs.RepeatedRule
import AssetAudit.Proofs.ReportText
import AssetAudit.Proofs.ResolvedImport
import AssetAudit.Proofs.RuleCover
import AssetAudit.Proofs.RuleDerivation
import AssetAudit.Proofs.RuleSpelling
import AssetAudit.Proofs.RuleToggle
import AssetAudit.Proofs.ScriptGlobal
import AssetAudit.Proofs.SearchedTag
import AssetAudit.Proofs.SeededMemory
import AssetAudit.Proofs.SelectorForm
import AssetAudit.Proofs.SelectorList
import AssetAudit.Proofs.SelectorParts
import AssetAudit.Proofs.SheetFacts
import AssetAudit.Proofs.SheetImport
import AssetAudit.Proofs.ShelteredText
import AssetAudit.Proofs.SpelledImport
import AssetAudit.Proofs.SpelledTag
import AssetAudit.Proofs.StableKey
import AssetAudit.Proofs.SurveyedFacts
import AssetAudit.Proofs.TextSearch
import AssetAudit.Proofs.TreePlace
import AssetAudit.Proofs.UnparsedAsset
import AssetAudit.Proofs.UnremovedListener
import AssetAudit.Proofs.Walk
import AssetAudit.Proofs.WalkLimit
import AssetAudit.Report
import AssetAudit.Report.Console
import AssetAudit.Report.Json
import AssetAudit.Report.Output
import AssetAudit.Rules
import AssetAudit.Scan
import AssetAudit.Script.Dialect
import AssetAudit.Script.Extract
import AssetAudit.Script.Facts
import AssetAudit.Script.Grammar
import AssetAudit.Script.Grammar.Expression
import AssetAudit.Script.Grammar.Markup
import AssetAudit.Script.Grammar.Statement
import AssetAudit.Script.Grammar.Symbol
import AssetAudit.Script.Grammar.Type
import AssetAudit.Script.Lexeme
import AssetAudit.Script.LineEnd
import AssetAudit.Script.Rule
import AssetAudit.Script.Tree
import AssetAudit.SourceMap.Locate
import AssetAudit.SourceMap.Mapping
import AssetAudit.SourceMap.Reference
import AssetAudit.SourceMap.Source
import AssetAudit.SourceMap.Vlq
import AssetAudit.Style.Facts
import AssetAudit.Style.Lexeme
import AssetAudit.Style.Selector
import AssetAudit.Style.Sheet
import AssetAudit.Survey
import AssetAudit.Text.Base64
import AssetAudit.Text.Blank
import AssetAudit.Text.CaseTable
import AssetAudit.Text.Cursor
import AssetAudit.Text.Glob
import AssetAudit.Text.Lowercase
import AssetAudit.Text.Position
import AssetAudit.Text.Search
import AssetAudit.Text.Sha256
import AssetAudit.Time
import AssetAudit.Yaml.Scalar
import AssetAudit.Yaml.Writer
