import ImportChart.Text.Blank
import ImportChart.Text.Letter
import ImportChart.Text.Search
import ImportChart.NameSet
import ImportChart.Sorting
import ImportChart.Source.Comment
import ImportChart.Source.Literal
import ImportChart.Source.Constraint
import ImportChart.Source.Header
import ImportChart.Module.Directive
import ImportChart.Pattern
import ImportChart.Package
import ImportChart.PathRules
import ImportChart.Graph
import ImportChart.Label
import ImportChart.Chart.Basic
import ImportChart.Chart.Direction
import ImportChart.Chart.Mermaid
import ImportChart.Chart.Json
import ImportChart.Settings
import ImportChart.Tree.Basic
import ImportChart.Tree.Path
import ImportChart.Tree.Content
import ImportChart.Module.Error
import ImportChart.Module.SourceFolder
import ImportChart.Module.Load
import ImportChart.Cli.Arguments
import ImportChart.Cli.Text
import ImportChart.Cli.Run
import ImportChart.Cli.Snapshot
import ImportChart.Main
import ImportChart.Proofs.Labelling
import ImportChart.Proofs.ChartContents
import ImportChart.Proofs.MermaidText
import ImportChart.Proofs.CommentSegments
import ImportChart.Proofs.CharacterClasses
import ImportChart.Proofs.HeaderGrammar
import ImportChart.Proofs.HeaderReading
import ImportChart.Proofs.Walk
import ImportChart.Proofs.ModuleFolders
import ImportChart.Proofs.FolderPackage
import ImportChart.Proofs.LoadedModule
import ImportChart.Proofs.LabelBookRuns
import ImportChart.Proofs.AlikeTrees
import ImportChart.Proofs.HiddenChanges
import ImportChart.Proofs.ListingOrder
import ImportChart.Proofs.PatternLiterals
import ImportChart.Proofs.PatternRegex
import ImportChart.Proofs.NarrowedPatterns
import ImportChart.Proofs.FirstFault
import ImportChart.Proofs.ExpressionGrammar
import ImportChart.Proofs.FlatReading
import ImportChart.Proofs.ExpressionReading
import ImportChart.Proofs.SetAside
import ImportChart.Proofs.CommonPrefix
import ImportChart.Proofs.SharedNodes
import ImportChart.Proofs.FailedRuns
import ImportChart.Proofs.HeaderConstraints
import ImportChart.Proofs.LabelOrder
import ImportChart.Proofs.LeadingOptions
import ImportChart.Proofs.UnreadFiles
import ImportChart.Proofs.FlagsAndVariables
import ImportChart.Proofs.WrittenFiles
import ImportChart.Proofs.SavedCharts
import ImportChart.Proofs.LabelSequence
import ImportChart.Proofs.RelativePatterns
import ImportChart.Proofs.OptionLines
import ImportChart.Proofs.ModuleLines
import ImportChart.Proofs.GraphRuns
import ImportChart.Proofs.IgnoreLists
import ImportChart.Proofs.SegmentedText
import ImportChart.Proofs.JsonGrammar
import ImportChart.Proofs.JsonReading
import ImportChart.Proofs.JsonCharts
import ImportChart.Proofs.LabelIndexes
import ImportChart.Proofs.LoggedWarnings
import ImportChart.Proofs.HeaderRegex
