import TeenyTiny.Kind
import TeenyTiny.Token
import TeenyTiny.Position
import TeenyTiny.Fault
import TeenyTiny.Diagnostic
import TeenyTiny.Record
import TeenyTiny.Output
import TeenyTiny.Names
import TeenyTiny.Lexeme
import TeenyTiny.Cursor
import TeenyTiny.Action
import TeenyTiny.Block
import TeenyTiny.Place
import TeenyTiny.Compilation
import TeenyTiny.Grammar
import TeenyTiny.Tree.Basic
import TeenyTiny.Tree.Listing
import TeenyTiny.Tree.Naming
import TeenyTiny.Tree.Target
import TeenyTiny.Tree.Log
import TeenyTiny.Workspace
import TeenyTiny.Request
import TeenyTiny.Session
import TeenyTiny.Main
import TeenyTiny.Proofs.Shape
import TeenyTiny.Proofs.Derivation
import TeenyTiny.Proofs.Naming
import TeenyTiny.Proofs.Remainder
import TeenyTiny.Proofs.Moves
import TeenyTiny.Proofs.Course
import TeenyTiny.Proofs.Acceptance
import TeenyTiny.Proofs.FirstFault
import TeenyTiny.Proofs.Layout
import TeenyTiny.Proofs.TreeWalk
import TeenyTiny.Proofs.Parsing
import TeenyTiny.Proofs.Translation
import TeenyTiny.Proofs.WellNamed
import TeenyTiny.Proofs.CText
import TeenyTiny.Proofs.Hygiene
import TeenyTiny.Proofs.CLexing
import TeenyTiny.Proofs.TreeTokens
import TeenyTiny.Proofs.Legibility
import TeenyTiny.Proofs.CArithmetic
import TeenyTiny.Proofs.Grouping
import TeenyTiny.Proofs.Balance
import TeenyTiny.Proofs.Rereading
import TeenyTiny.Proofs.ReadingAhead
import TeenyTiny.Proofs.Relocation
import TeenyTiny.Proofs.Tiling
import TeenyTiny.Proofs.Rendering
import TeenyTiny.Proofs.Spacing
import TeenyTiny.Proofs.Continuation
import TeenyTiny.Proofs.LaterLines
import TeenyTiny.Proofs.Concatenation
import TeenyTiny.Proofs.Positions
import TeenyTiny.Proofs.FaultTokens
import TeenyTiny.Proofs.CarriageReturns
import TeenyTiny.Proofs.LineEnds
import TeenyTiny.Proofs.FileJobs
import TeenyTiny.Proofs.Verbosity
import TeenyTiny.Proofs.LongestMatch
import TeenyTiny.Proofs.MissingLabels
import TeenyTiny.Proofs.RenamedText
import TeenyTiny.Proofs.RenamedTree
import TeenyTiny.Proofs.Renaming
import TeenyTiny.Proofs.Bytes
import TeenyTiny.Proofs.ByteScan
import TeenyTiny.Proofs.Addresses
import TeenyTiny.Proofs.Reports
import TeenyTiny.Proofs.AppendOnly
import TeenyTiny.Proofs.Resumption
import TeenyTiny.Proofs.Stepwise
import TeenyTiny.Proofs.Trace
import TeenyTiny.Proofs.LabelLines
import TeenyTiny.Proofs.InStep
import TeenyTiny.Proofs.History
import TeenyTiny.Proofs.Descent
import TeenyTiny.Proofs.RulesEnd
import TeenyTiny.Proofs.RulesAndPlaces
import TeenyTiny.Proofs.RuleByRule
