import ObjectConstraint.Binary64.Basic
import ObjectConstraint.Binary64.Decimal
import ObjectConstraint.Binary64.Text
import ObjectConstraint.Company
import ObjectConstraint.Conformance
import ObjectConstraint.Date
import ObjectConstraint.Evaluation
import ObjectConstraint.Evaluation.Context
import ObjectConstraint.Evaluation.Error
import ObjectConstraint.Evaluation.Loop
import ObjectConstraint.Evaluation.Trace
import ObjectConstraint.Expr
import ObjectConstraint.Expr.Build
import ObjectConstraint.Expr.Printer
import ObjectConstraint.Hierarchy
import ObjectConstraint.Kleene
import ObjectConstraint.Literal
import ObjectConstraint.LoopKind
import ObjectConstraint.ObjectModel
import ObjectConstraint.Operation
import ObjectConstraint.Operation.Apply
import ObjectConstraint.Operation.Typing
import ObjectConstraint.Parts
import ObjectConstraint.Schema
import ObjectConstraint.Scope
import ObjectConstraint.Snapshot
import ObjectConstraint.Text.Blank
import ObjectConstraint.Text.Case
import ObjectConstraint.Text.CaseTable
import ObjectConstraint.Ty
import ObjectConstraint.TypeError
import ObjectConstraint.Value
import ObjectConstraint.Value.Collection
import ObjectConstraint.Value.Order
import ObjectConstraint.Value.Text
import ObjectConstraint.Proofs.Numbers
import ObjectConstraint.Proofs.TotalOrder
import ObjectConstraint.Proofs.Searches
import ObjectConstraint.Proofs.Ancestry
import ObjectConstraint.Proofs.NamedParts
import ObjectConstraint.Proofs.ConformanceOrder
import ObjectConstraint.Proofs.Distance
import ObjectConstraint.Proofs.Belonging
import ObjectConstraint.Proofs.Signatures
import ObjectConstraint.Proofs.OperationValues
import ObjectConstraint.Proofs.Judgements
import ObjectConstraint.Proofs.Lockstep
import ObjectConstraint.Proofs.Ensures
import ObjectConstraint.Proofs.LoopValues
import ObjectConstraint.Proofs.FreeVariables
import ObjectConstraint.Proofs.ValueInvariant
import ObjectConstraint.Proofs.Walk
import ObjectConstraint.Proofs.Scoping
import ObjectConstraint.Proofs.Construction
import ObjectConstraint.Proofs.StackKept
import ObjectConstraint.Proofs.WellFormed
import ObjectConstraint.Proofs.LoopTypes
import ObjectConstraint.Proofs.Faithful
import ObjectConstraint.Proofs.Typings
import ObjectConstraint.Proofs.Built
import ObjectConstraint.Proofs.TypedEvaluation
import ObjectConstraint.Proofs.Soundness
import ObjectConstraint.Proofs.SnapshotSoundness
import ObjectConstraint.Proofs.ScopeSoundness
import ObjectConstraint.Proofs.Joins
import ObjectConstraint.Proofs.JoinMinimality
import ObjectConstraint.Proofs.Dispatch
import ObjectConstraint.Proofs.LeastTypes
import ObjectConstraint.Proofs.Upcasts
import ObjectConstraint.Proofs.EqualCollections
import ObjectConstraint.Proofs.EqualOperands
import ObjectConstraint.Proofs.Observers
import ObjectConstraint.Proofs.Calls
import ObjectConstraint.Proofs.Bracketing
import ObjectConstraint.Proofs.Frames
import ObjectConstraint.Proofs.Recording
import ObjectConstraint.Proofs.Reuse
import ObjectConstraint.Proofs.Tokens
import ObjectConstraint.Proofs.OperationNames
import ObjectConstraint.Proofs.Phrases
import ObjectConstraint.Proofs.Formulas
import ObjectConstraint.Proofs.Agreement
import ObjectConstraint.Proofs.Unambiguous
import ObjectConstraint.Proofs.FailingLeaves
import ObjectConstraint.Proofs.FailurePath
import ObjectConstraint.Proofs.Narrowing
import ObjectConstraint.Proofs.TransitiveClosure
import ObjectConstraint.Proofs.Duality
import ObjectConstraint.Proofs.StableSorting
import ObjectConstraint.Proofs.Multiplicities
import ObjectConstraint.Proofs.Operands
import ObjectConstraint.Proofs.DerivedLoops
import ObjectConstraint.Proofs.ImplicitCollect
import ObjectConstraint.Proofs.Sums
import ObjectConstraint.Proofs.Conversions
import ObjectConstraint.Proofs.Flattening
import ObjectConstraint.Proofs.Places
import ObjectConstraint.Proofs.Division
import ObjectConstraint.Proofs.Nearest
import ObjectConstraint.Proofs.Rounding
import ObjectConstraint.Proofs.Widening
import ObjectConstraint.Proofs.Instances
import ObjectConstraint.Proofs.TestTargets
import ObjectConstraint.Proofs.AncestorSearch
