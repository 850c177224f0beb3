import ChartParser.Accumulation
import ChartParser.Action.Datum
import ChartParser.Chart.Basic
import ChartParser.Chart.Fill
import ChartParser.Chart.Item
import ChartParser.Chart.ItemSet
import ChartParser.Event
import ChartParser.Forest.Basic
import ChartParser.Forest.Bracketed
import ChartParser.Forest.Compare
import ChartParser.Forest.Count
import ChartParser.Forest.Disambiguate
import ChartParser.Forest.Evaluate
import ChartParser.Forest.Marks
import ChartParser.Forest.Outline
import ChartParser.Forest.Preference
import ChartParser.Forest.Trace
import ChartParser.Forest.Walk
import ChartParser.Grammar.Basic
import ChartParser.Grammar.Debug
import ChartParser.Grammar.Draft
import ChartParser.Grammar.Text
import ChartParser.IndexRange
import ChartParser.Language
import ChartParser.Lexeme.Class
import ChartParser.Parse
import ChartParser.Proofs.Accumulation
import ChartParser.Proofs.Acyclicity
import ChartParser.Proofs.Ambiguity
import ChartParser.Proofs.BestTree
import ChartParser.Proofs.Calls
import ChartParser.Proofs.Chart.Complete
import ChartParser.Proofs.Chart.Contents
import ChartParser.Proofs.Chart.Descent
import ChartParser.Proofs.Chart.Enter
import ChartParser.Proofs.Chart.Fill
import ChartParser.Proofs.Chart.Handled
import ChartParser.Proofs.Chart.Indexed
import ChartParser.Proofs.Chart.Journal
import ChartParser.Proofs.Chart.Operations
import ChartParser.Proofs.Chart.Rounds
import ChartParser.Proofs.Chart.Saturate
import ChartParser.Proofs.Chart.Scan
import ChartParser.Proofs.Chart.Sound
import ChartParser.Proofs.Chart.Stages
import ChartParser.Proofs.Chart.Whole
import ChartParser.Proofs.ChartInvariant
import ChartParser.Proofs.ChartSize
import ChartParser.Proofs.Collapsing
import ChartParser.Proofs.Consistency
import ChartParser.Proofs.Counting
import ChartParser.Proofs.Disambiguation
import ChartParser.Proofs.EarlierSets
import ChartParser.Proofs.Elision
import ChartParser.Proofs.ErrorOffset
import ChartParser.Proofs.Finality
import ChartParser.Proofs.FirstOffence
import ChartParser.Proofs.Forest.Best
import ChartParser.Proofs.Forest.Choices
import ChartParser.Proofs.Forest.Comparison
import ChartParser.Proofs.Forest.Cut
import ChartParser.Proofs.Forest.Distinct
import ChartParser.Proofs.Forest.Evaluation
import ChartParser.Proofs.Forest.Nodes
import ChartParser.Proofs.Forest.Progress
import ChartParser.Proofs.Forest.Resolve
import ChartParser.Proofs.Forest.Survivors
import ChartParser.Proofs.Forest.Tasks
import ChartParser.Proofs.Forest.Underway
import ChartParser.Proofs.Forest.Walk
import ChartParser.Proofs.Forest.Worklist
import ChartParser.Proofs.Fringes
import ChartParser.Proofs.Grammar.Loops
import ChartParser.Proofs.Grammar.Names
import ChartParser.Proofs.Grammar.Prefix
import ChartParser.Proofs.Grammar.Tree
import ChartParser.Proofs.Grammar.TreeOrder
import ChartParser.Proofs.Grammar.TreeValue
import ChartParser.Proofs.Grammar.WellFormed
import ChartParser.Proofs.Grammar.Widening
import ChartParser.Proofs.IndexStorage
import ChartParser.Proofs.LexemeScan
import ChartParser.Proofs.Listing
import ChartParser.Proofs.MatchedTokens
import ChartParser.Proofs.Numbering
import ChartParser.Proofs.Packing
import ChartParser.Proofs.Pipeline
import ChartParser.Proofs.Priority
import ChartParser.Proofs.Recognition
import ChartParser.Proofs.RecursiveComparison
import ChartParser.Proofs.RecursiveResolution
import ChartParser.Proofs.RecursiveWalk
import ChartParser.Proofs.Termination
import ChartParser.Proofs.Traversal.Free
import ChartParser.Proofs.Traversal.Invariant
import ChartParser.Proofs.Traversal.Loop
import ChartParser.Proofs.Traversal.Moves
import ChartParser.Proofs.Traversal.Projection
import ChartParser.Proofs.Traversal.Pruning
import ChartParser.Proofs.Traversal.Recursion
import ChartParser.Proofs.Traversal.State
import ChartParser.Proofs.Validation
import ChartParser.Proofs.Walking
import ChartParser.Text.Quoted
import ChartParser.Text.Unprintable
import ChartParser.Traversal.Basic
import ChartParser.Traversal.Load
import ChartParser.Traversal.Stack
