import SchemaMap.Analysis.Basic
import SchemaMap.Analysis.Pipeline
import SchemaMap.Analysis.Program
import SchemaMap.Analysis.Transform
import SchemaMap.Builder
import SchemaMap.Config
import SchemaMap.Decimal.Shortest
import SchemaMap.Declaration
import SchemaMap.Diagnostic.Basic
import SchemaMap.Diagnostic.Problem
import SchemaMap.Diagnostic.Report
import SchemaMap.Dictionary
import SchemaMap.Expr.Basic
import SchemaMap.Expr.Equality
import SchemaMap.Expr.Path
import SchemaMap.Inference.Basic
import SchemaMap.Inference.Context
import SchemaMap.Inference.Trace
import SchemaMap.Inheritance
import SchemaMap.PhysicalUnit.Basic
import SchemaMap.PhysicalUnit.Dimensions
import SchemaMap.Proofs.Acceptance
import SchemaMap.Proofs.Activations.Accounts
import SchemaMap.Proofs.Activations.Program
import SchemaMap.Proofs.Activations.Schemas
import SchemaMap.Proofs.Activations.Units
import SchemaMap.Proofs.Analysis.Frame
import SchemaMap.Proofs.Analysis.Phases
import SchemaMap.Proofs.Analysis.Rules
import SchemaMap.Proofs.Analysis.Stage
import SchemaMap.Proofs.Analysis.Transform
import SchemaMap.Proofs.Completion
import SchemaMap.Proofs.Findings
import SchemaMap.Proofs.Inference.Context
import SchemaMap.Proofs.Inference.Renaming
import SchemaMap.Proofs.Inference.Trace
import SchemaMap.Proofs.Inference.Typing
import SchemaMap.Proofs.Inheritance
import SchemaMap.Proofs.Meaning
import SchemaMap.Proofs.Order
import SchemaMap.Proofs.Prelude
import SchemaMap.Proofs.Registration
import SchemaMap.Proofs.Renumbering
import SchemaMap.Proofs.Resolution
import SchemaMap.Proofs.SchemaFields
import SchemaMap.Proofs.Symbol.Operations
import SchemaMap.Proofs.Symbol.Stack
import SchemaMap.Proofs.Symbol.Table
import SchemaMap.Proofs.Ty.Equality
import SchemaMap.Proofs.Ty.Renaming
import SchemaMap.Proofs.Ty.Subtype
import SchemaMap.Proofs.Units
import SchemaMap.Proofs.WellTyped
import SchemaMap.Registration
import SchemaMap.Resolution
import SchemaMap.SchemaFields
import SchemaMap.Span
import SchemaMap.Symbol.Kind
import SchemaMap.Symbol.Table
import SchemaMap.Text
import SchemaMap.Ty.Basic
import SchemaMap.Ty.Equality
import SchemaMap.Ty.Substitution
import SchemaMap.Ty.Subtype
import SchemaMap.Ty.Text
import SchemaMap.Ty.Union
import SchemaMap.TypeExpr
import SchemaMap.UnitExpr
import SchemaMap.UnitTable
import SchemaMap.Vocabulary.Aggregate
import SchemaMap.Vocabulary.Operator
import SchemaMap.Vocabulary.Primitive
import SchemaMap.Vocabulary.Word
import SchemaMap.Proofs.Analysis.Evaluation
import SchemaMap.Proofs.Ty.Closed
import SchemaMap.Proofs.Analysis.Closed
import SchemaMap.Proofs.Symbol.Visibility
import SchemaMap.Proofs.Inference.Session
import SchemaMap.Proofs.Analysis.Changes
import SchemaMap.Proofs.Relaxation
import SchemaMap.Proofs.Inference.Within
import SchemaMap.Proofs.Dimensions
import SchemaMap.Proofs.Analysis.Known
import SchemaMap.Proofs.Analysis.Measured
import SchemaMap.Proofs.Analysis.Owners
import SchemaMap.Proofs.Faults
import SchemaMap.Proofs.Symbol.Places
import SchemaMap.Proofs.Repetition
import SchemaMap.Proofs.Inference.Agreement
import SchemaMap.Proofs.Symbol.Agreement
import SchemaMap.Proofs.Unmentioned
import SchemaMap.Proofs.Analysis.Globals
import SchemaMap.Proofs.Analysis.Recorded
import SchemaMap.Proofs.Analysis.Types
import SchemaMap.Proofs.Analysis.Variables
import SchemaMap.Proofs.Ty.Normal
import SchemaMap.Proofs.Instantiation
import SchemaMap.Proofs.Positions
import SchemaMap.Proofs.Placement
import SchemaMap.Proofs.Ty.Alternatives
import SchemaMap.Proofs.Ty.Widening
import SchemaMap.Proofs.Ty.Nullable
import SchemaMap.Proofs.Branches
import SchemaMap.Proofs.Exponents
import SchemaMap.Proofs.Inference.Arithmetic
import SchemaMap.Proofs.Cycles
import SchemaMap.Proofs.Overriding
import SchemaMap.Proofs.RunningTotals
import SchemaMap.Proofs.BrokenUnits
import SchemaMap.Proofs.UnitMarks
import SchemaMap.Proofs.Inference.Paths
import SchemaMap.Proofs.Extension
import SchemaMap.Proofs.Inference.Parameters
import SchemaMap.Proofs.Copying
import SchemaMap.Proofs.PathText
import SchemaMap.Proofs.UnitReader
import SchemaMap.Proofs.UnitText
import SchemaMap.Proofs.TypeReader
import SchemaMap.Proofs.TypeText
import SchemaMap.Proofs.Ty.Composition
import SchemaMap.Proofs.Signatures
import SchemaMap.Proofs.Advice
