import ScopeConfig.Blocks.Assertion
import ScopeConfig.Blocks.Attributes
import ScopeConfig.Blocks.Generation
import ScopeConfig.Blocks.MapRule
import ScopeConfig.Blocks.Kind
import ScopeConfig.Blocks.OutputsSharing
import ScopeConfig.Blocks.ProjectSettings
import ScopeConfig.Blocks.Script
import ScopeConfig.Blocks.Stack
import ScopeConfig.Blocks.Structure
import ScopeConfig.CommandLine.Invocation
import ScopeConfig.CommandLine.Outcome
import ScopeConfig.Config.Basic
import ScopeConfig.Config.NameSet
import ScopeConfig.Diagnostic.Basic
import ScopeConfig.Diagnostic.Cause
import ScopeConfig.Disk.Basic
import ScopeConfig.Disk.Search
import ScopeConfig.Glob.Matching
import ScopeConfig.Glob.Pattern
import ScopeConfig.Import.Edge
import ScopeConfig.Import.Expansion
import ScopeConfig.Literal.Double
import ScopeConfig.Literal.Evaluation
import ScopeConfig.Literal.Value
import ScopeConfig.Main
import ScopeConfig.Merge.Entity
import ScopeConfig.Merge.Table
import ScopeConfig.Path.Basic
import ScopeConfig.Project.FileTree
import ScopeConfig.Project.Provider
import ScopeConfig.Report.Document
import ScopeConfig.Report.Encoding
import ScopeConfig.Scope.Assembly
import ScopeConfig.Scope.Registry
import ScopeConfig.Scope.Session
import ScopeConfig.Settings.Json
import ScopeConfig.Settings.Toml
import ScopeConfig.Source.Position
import ScopeConfig.Syntax.Capture
import ScopeConfig.Syntax.Entry
import ScopeConfig.Syntax.Fault
import ScopeConfig.Syntax.Lexeme
import ScopeConfig.Syntax.Token
import ScopeConfig.Syntax.Tree
import ScopeConfig.Text.Letter
import ScopeConfig.Text.Visible
import ScopeConfig.Text.Split
import ScopeConfig.Proofs.Blocks.Accepted
import ScopeConfig.Proofs.Blocks.Counting
import ScopeConfig.Proofs.Blocks.Located
import ScopeConfig.Proofs.Blocks.MapRule
import ScopeConfig.Proofs.Blocks.MapViolations
import ScopeConfig.Proofs.Blocks.OrderFree
import ScopeConfig.Proofs.Blocks.ProjectFragments
import ScopeConfig.Proofs.Blocks.RawBlocks
import ScopeConfig.Proofs.Blocks.Reports
import ScopeConfig.Proofs.Blocks.ScriptRule
import ScopeConfig.Proofs.Blocks.Violations
import ScopeConfig.Proofs.Config.Acceptance
import ScopeConfig.Proofs.Config.AllOrNothing
import ScopeConfig.Proofs.Config.Contents
import ScopeConfig.Proofs.Config.Entries
import ScopeConfig.Proofs.Config.Gate
import ScopeConfig.Proofs.Config.Recording
import ScopeConfig.Proofs.Config.Repeats
import ScopeConfig.Proofs.Glob.Literal
import ScopeConfig.Proofs.Import.Closure
import ScopeConfig.Proofs.Import.Confined
import ScopeConfig.Proofs.Import.Cycle
import ScopeConfig.Proofs.Import.DepthFirst
import ScopeConfig.Proofs.Import.Discovery
import ScopeConfig.Proofs.Import.Effort
import ScopeConfig.Proofs.Import.Exact
import ScopeConfig.Proofs.Import.Patterns
import ScopeConfig.Proofs.Import.Sources
import ScopeConfig.Proofs.Import.Steps
import ScopeConfig.Proofs.Import.Verdict
import ScopeConfig.Proofs.Literal.Exact
import ScopeConfig.Proofs.Literal.Grammar
import ScopeConfig.Proofs.Loop.Rounds
import ScopeConfig.Proofs.Merge.Complete
import ScopeConfig.Proofs.Merge.Distinct
import ScopeConfig.Proofs.Merge.Entities
import ScopeConfig.Proofs.Merge.Fragments
import ScopeConfig.Proofs.Merge.Fusion
import ScopeConfig.Proofs.Merge.Grouping
import ScopeConfig.Proofs.Merge.Index
import ScopeConfig.Proofs.Merge.Kept
import ScopeConfig.Proofs.Merge.Redeclaration
import ScopeConfig.Proofs.Merge.Reordered
import ScopeConfig.Proofs.Merge.Repeats
import ScopeConfig.Proofs.Path.Course
import ScopeConfig.Proofs.Path.Joined
import ScopeConfig.Proofs.Path.Normal
import ScopeConfig.Proofs.Path.Order
import ScopeConfig.Proofs.Path.Spelling
import ScopeConfig.Proofs.Project.FileTree
import ScopeConfig.Proofs.Project.Stored
import ScopeConfig.Proofs.Scope.Complete
import ScopeConfig.Proofs.Scope.Confined
import ScopeConfig.Proofs.Scope.Dispatch
import ScopeConfig.Proofs.Scope.Experiments
import ScopeConfig.Proofs.Scope.FileOrder
import ScopeConfig.Proofs.Scope.MoreExperiments
import ScopeConfig.Proofs.Scope.OwnFiles
import ScopeConfig.Proofs.Scope.Provenance
import ScopeConfig.Proofs.Scope.Repeats
import ScopeConfig.Proofs.Scope.Steps
import ScopeConfig.Proofs.Scope.Unique
import ScopeConfig.Proofs.Source.Position
import ScopeConfig.Proofs.Syntax.Attributes
import ScopeConfig.Proofs.Syntax.Brackets
import ScopeConfig.Proofs.Syntax.Ending
import ScopeConfig.Proofs.Syntax.Exact
import ScopeConfig.Proofs.Syntax.Faults
import ScopeConfig.Proofs.Syntax.Grammar
import ScopeConfig.Proofs.Syntax.Heredocs
import ScopeConfig.Proofs.Syntax.Lexemes
import ScopeConfig.Proofs.Syntax.Locality
import ScopeConfig.Proofs.Syntax.Loops
import ScopeConfig.Proofs.Syntax.Marked
import ScopeConfig.Proofs.Syntax.Pieces
import ScopeConfig.Proofs.Syntax.Places
import ScopeConfig.Proofs.Syntax.QuotedLines
import ScopeConfig.Proofs.Syntax.Readings
import ScopeConfig.Proofs.Syntax.Records
import ScopeConfig.Proofs.Syntax.Recovery
import ScopeConfig.Proofs.Syntax.Relexing
import ScopeConfig.Proofs.Syntax.SelfContained
import ScopeConfig.Proofs.Syntax.StringLiterals
import ScopeConfig.Proofs.Syntax.Tiling
