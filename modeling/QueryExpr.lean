import QueryExpr.Binary.Basic
import QueryExpr.Binary.Decimal
import QueryExpr.Binary.Round
import QueryExpr.Binary.Shortest
import QueryExpr.Cast
import QueryExpr.Compare
import QueryExpr.Compile.Connective
import QueryExpr.Compile.Context
import QueryExpr.Compile.Inline
import QueryExpr.Compile.Node
import QueryExpr.Compile.Note
import QueryExpr.Compile.Stepwise
import QueryExpr.Compile.Tree
import QueryExpr.Config
import QueryExpr.Config.Read
import QueryExpr.Error
import QueryExpr.Eval
import QueryExpr.Explain
import QueryExpr.Expr.Basic
import QueryExpr.Expr.Equality
import QueryExpr.Expr.Match
import QueryExpr.Expr.Text
import QueryExpr.Fingerprint
import QueryExpr.Fingerprint.Encoding
import QueryExpr.Fingerprint.Sha256
import QueryExpr.Index.Analysis
import QueryExpr.Index.Basic
import QueryExpr.Index.Lowering
import QueryExpr.Item
import QueryExpr.Query
import QueryExpr.Scope
import QueryExpr.Score
import QueryExpr.Span
import QueryExpr.Text.Blank
import QueryExpr.Text.Letter
import QueryExpr.Toml.Document
import QueryExpr.Toml.Scalar
import QueryExpr.Type.Atom
import QueryExpr.Type.Occurrence
import QueryExpr.Type.Sequence
import QueryExpr.Value
import QueryExpr.Proofs.Normal
import QueryExpr.Proofs.Outcome
import QueryExpr.Proofs.Rules
import QueryExpr.Proofs.Node
import QueryExpr.Proofs.Flatten
import QueryExpr.Proofs.Operands
import QueryExpr.Proofs.Rounds
import QueryExpr.Proofs.Vocabulary
import QueryExpr.Proofs.Sieve
import QueryExpr.Proofs.Depth
import QueryExpr.Proofs.Revising
import QueryExpr.Proofs.Inline
import QueryExpr.Proofs.NormalForm
import QueryExpr.Proofs.Fixed
import QueryExpr.Proofs.Live
import QueryExpr.Proofs.Placeless
import QueryExpr.Proofs.Idempotence
import QueryExpr.Proofs.Steps
import QueryExpr.Proofs.Soundness
import QueryExpr.Proofs.Narrowing
import QueryExpr.Proofs.Meaning
import QueryExpr.Proofs.Interval
import QueryExpr.Proofs.Comparison
import QueryExpr.Proofs.Instances
import QueryExpr.Proofs.Same
import QueryExpr.Proofs.Compatible
import QueryExpr.Proofs.Refinement
import QueryExpr.Proofs.Regular
import QueryExpr.Proofs.Decision
import QueryExpr.Proofs.Preservation
import QueryExpr.Proofs.Substitution
import QueryExpr.Proofs.Analysis
import QueryExpr.Proofs.TailCalls
import QueryExpr.Proofs.Finding
import QueryExpr.Proofs.Typed
import QueryExpr.Proofs.Surfacing
import QueryExpr.Proofs.Lookups
import QueryExpr.Proofs.Recompiled
import QueryExpr.Proofs.Calls
import QueryExpr.Proofs.Thrift
import QueryExpr.Proofs.Rounding
import QueryExpr.Proofs.ScoreRange
import QueryExpr.Proofs.ScoreOrder
import QueryExpr.Proofs.Bare
import QueryExpr.Proofs.Ranking
import QueryExpr.Proofs.Sources
import QueryExpr.Proofs.Places
import QueryExpr.Proofs.Grading
import QueryExpr.Proofs.Muting
import QueryExpr.Proofs.Tally
import QueryExpr.Proofs.Relevance
import QueryExpr.Proofs.PlanBytes
import QueryExpr.Proofs.Wording
import QueryExpr.Proofs.Description
import QueryExpr.Proofs.Verdict
import QueryExpr.Proofs.Exactness
import QueryExpr.Proofs.Stepwise
import QueryExpr.Proofs.Observation
import QueryExpr.Proofs.Alike
import QueryExpr.Proofs.Throughout
import QueryExpr.Proofs.Stages
import QueryExpr.Proofs.Fair
import QueryExpr.Proofs.Runs
import QueryExpr.Proofs.Landing
import QueryExpr.Proofs.Draws
import QueryExpr.Proofs.Merging
import QueryExpr.Proofs.Factoring
import QueryExpr.Proofs.ScoringOff
import QueryExpr.Proofs.Conversion
import QueryExpr.Proofs.Elision
import QueryExpr.Proofs.Numerals
import QueryExpr.Proofs.Readback
import QueryExpr.Proofs.Zeros
import QueryExpr.Proofs.Congruence
import QueryExpr.Proofs.RuleOrder
import QueryExpr.Proofs.References
import QueryExpr.Proofs.Shrinking
