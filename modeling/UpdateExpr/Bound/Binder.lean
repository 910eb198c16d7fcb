import UpdateExpr.Bound.Expr
import UpdateExpr.Diagnostic.Basic
import UpdateExpr.Symbol.Display

/-!
# Binders

A binder reads the nodes of one expression, the symbols and the scope, and says how far binding may
go. Types that binding needs and diagnostics that it reports are its state.

## Main definitions

* `BindOptions`, `Binder`: what a binder reads
* `BindState`, `BindM`: what binding changes
* `BindM.ask`: a question about symbols, with the notes it leaves
* `Binder.report`, `Binder.reportNotes`: diagnostics at a node
* `Binder.typeName`, `Binder.memberName`: names for messages
-/

namespace UpdateExpr

/-- How far expressions may be nested. What can be read can be bound. -/
def maxBindDepth : Nat :=
  256

/-- Settings of a binder. -/
structure BindOptions where
  /-- An update of a receiver with several clone methods is faulty. -/
  reportAmbiguousClone : Bool := false
  /-- How far expressions may be nested. -/
  maxDepth : Nat := maxBindDepth
  deriving DecidableEq, Repr, Inhabited

/-- What a binder reads. -/
structure Binder where
  arena : Arena
  symbols : SymbolTable
  scope : Scope := {}
  options : BindOptions := {}
  deriving Repr, Inhabited

/-- The types that are known and the diagnostics that were reported. -/
structure BindState where
  types : TypeTable
  bag : Bag
  deriving DecidableEq, Repr, Inhabited

/-- A part of binding. -/
abbrev BindM := StateM BindState

namespace BindM

/-- The answer to a question about symbols, and the notes it leaves. -/
def ask {α : Type} (question : QueryM α) : BindM (α × List UseSite) := fun s =>
  let (a, q) := question { types := s.types }
  ((a, q.notes), { s with types := q.types })

/-- The types that are known. -/
def types : BindM TypeTable := do
  return (← get).types

end BindM

namespace Binder

/-- Reports an issue at a node, by number. -/
def reportCode (b : Binder) (node : NodeRef) (code : Nat) (args : List String) : BindM Unit :=
  modify fun s => { s with bag := s.bag.add code (b.arena.span node) args }

/-- Reports an issue at a node. -/
def report (b : Binder) (node : NodeRef) (issue : Issue) (args : List String := []) : BindM Unit :=
  b.reportCode node issue.code args

/-- Reports notes at a node, and says whether there are any that make the expression faulty. -/
def reportNotes (b : Binder) (node : NodeRef) (notes : List UseSite) : BindM Bool := do
  notes.forM fun note => b.reportCode node note.code note.args
  return notes.any (Severity.ofCode ·.code == .error)

/-- The name of a type for a message; expressions without a type are `null`. -/
def typeName (b : Binder) (ty? : Option TypeId) : BindM String := do
  let types ← BindM.types
  return (ty?.map (b.symbols.displayType types)).getD "<null>"

/-- The name of a member for a message. -/
def memberName (b : Binder) (m : MemberId) : BindM String := do
  return b.symbols.displayMember (← BindM.types) m

end Binder

end UpdateExpr
