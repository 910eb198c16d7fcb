import UpdateExpr.Compilation.Batch
import UpdateExpr.Compilation.Log
import UpdateExpr.Compilation.Options
import UpdateExpr.Token.Scanner
import UpdateExpr.Proofs.Bound.NodeRun
import UpdateExpr.Proofs.Bound.Flag
import UpdateExpr.Proofs.Syntax.Grammar
import UpdateExpr.Proofs.Syntax.Reading
import UpdateExpr.Proofs.Syntax.Soundness
import UpdateExpr.Proofs.Syntax.Acceptance
import UpdateExpr.Proofs.Syntax.Parse
import UpdateExpr.Proofs.Ty.Growth
import UpdateExpr.Proofs.Ty.Steady
import UpdateExpr.Proofs.Ty.Instantiation
import UpdateExpr.Proofs.Symbol.Lineage
import UpdateExpr.Proofs.Symbol.Lookup
import UpdateExpr.Proofs.Symbol.Conversion
import UpdateExpr.Proofs.Bound.Typed
import UpdateExpr.Proofs.Bound.Typing
import UpdateExpr.Proofs.Syntax.Layout
import UpdateExpr.Proofs.Syntax.Written
import UpdateExpr.Proofs.Syntax.Spaced
import UpdateExpr.Proofs.Syntax.Holds
import UpdateExpr.Proofs.Syntax.ReadBack
import UpdateExpr.Proofs.Bound.Silence
import UpdateExpr.Proofs.Symbol.Notes
import UpdateExpr.Proofs.Bound.Depth
import UpdateExpr.Proofs.Diagnostic.Arrival
import UpdateExpr.Proofs.Related
import UpdateExpr.Proofs.Ty.Tree
import UpdateExpr.Proofs.Ty.Alike
import UpdateExpr.Proofs.Ty.Normal
import UpdateExpr.Proofs.Ty.Handles
import UpdateExpr.Proofs.Ty.Erasure
import UpdateExpr.Proofs.Ty.Composition
import UpdateExpr.Proofs.Ty.Agree
import UpdateExpr.Proofs.Symbol.Agree
import UpdateExpr.Proofs.Symbol.AgreeLookup
import UpdateExpr.Proofs.Bound.Alike
import UpdateExpr.Proofs.Bound.Agree
import UpdateExpr.Proofs.Bound.AgreeNode
import UpdateExpr.Proofs.Text.Numbering
import UpdateExpr.Proofs.Compilation.Order
import UpdateExpr.Proofs.Symbol.Hiding
import UpdateExpr.Proofs.Symbol.Nullability
import UpdateExpr.Proofs.Symbol.Ancestry
import UpdateExpr.Proofs.Symbol.Reversal
import UpdateExpr.Proofs.Walk
import UpdateExpr.Proofs.BreadthFirst
import UpdateExpr.Proofs.Symbol.Upward
import UpdateExpr.Proofs.Symbol.SelfDerivation
import UpdateExpr.Proofs.Symbol.Derivation
import UpdateExpr.Proofs.Bound.Assembly
import UpdateExpr.Proofs.Symbol.Limit
import UpdateExpr.Proofs.Symbol.Walks
import UpdateExpr.Proofs.Symbol.Scope
import UpdateExpr.Proofs.Bound.Cascade
import UpdateExpr.Proofs.Symbol.Nullary
import UpdateExpr.Proofs.Bound.Echo
import UpdateExpr.Proofs.Bound.Lockstep
import UpdateExpr.Proofs.Bound.LockstepNode
import UpdateExpr.Proofs.Bound.Ambiguity
import UpdateExpr.Proofs.Bound.CloneCall
import UpdateExpr.Proofs.Bound.Finished
import UpdateExpr.Proofs.Bound.Guard
import UpdateExpr.Proofs.Bound.Again
import UpdateExpr.Proofs.Bound.Target
import UpdateExpr.Proofs.Bound.Frame
import UpdateExpr.Proofs.Bound.Permutation
import UpdateExpr.Proofs.Syntax.Position
import UpdateExpr.Proofs.Syntax.Extent
import UpdateExpr.Proofs.Syntax.Building
import UpdateExpr.Proofs.Syntax.Mirrored
import UpdateExpr.Proofs.Syntax.PostOrder
import UpdateExpr.Proofs.Token.Scanning
import UpdateExpr.Proofs.Token.Escape
import UpdateExpr.Proofs.Token.Cut
import UpdateExpr.Proofs.Token.Longest
import UpdateExpr.Proofs.Token.Backtracking
import UpdateExpr.Proofs.Number.Integer
import UpdateExpr.Proofs.Syntax.Quoted
import UpdateExpr.Proofs.Syntax.Forms
import UpdateExpr.Proofs.Syntax.Skeleton
import UpdateExpr.Proofs.Syntax.Invariance
import UpdateExpr.Proofs.Syntax.Moved
import UpdateExpr.Proofs.Syntax.Faithful
import UpdateExpr.Proofs.Diagnostic.Insertion
import UpdateExpr.Proofs.Compilation.Conservation
import UpdateExpr.Proofs.Syntax.Overflow
import UpdateExpr.Proofs.Symbol.Construction
import UpdateExpr.Proofs.Text.Interning
import UpdateExpr.Proofs.Syntax.Pools
