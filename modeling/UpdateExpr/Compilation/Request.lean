import UpdateExpr.Bound.Binding
import UpdateExpr.Syntax.Parser

/-!
# Requests

A request is a text that is to be read and bound. All requests of a compilation see the same
symbols, and they share one table of types.

## Main definitions

* `Request`, `RequestResult`: a text with its scope, and what became of it
* `Compilation.bindRequest`: reads and binds a text
-/

namespace UpdateExpr

/-- A text that is to be bound in a scope. -/
structure Request where
  file : String
  text : String
  scope : Scope := {}
  deriving DecidableEq, Repr, Inhabited

/-- A bound text: its nodes, its expression, and all that was reported about it. -/
structure RequestResult where
  file : String
  arena : Arena
  expr : BoundExpr
  bag : Bag
  deriving Repr, Inhabited

/-- Whether anything was reported about a text. -/
def RequestResult.hasDiagnostics (r : RequestResult) : Bool :=
  !r.bag.entries.isEmpty

/-- What the requests of a compilation share. -/
structure Compilation where
  symbols : SymbolTable
  options : BindOptions := {}
  deriving Repr, Inhabited

namespace Compilation

/-- The binder for a text that was read. -/
def binder (c : Compilation) (parsed : Parsed) (scope : Scope) : Binder where
  arena := parsed.arena
  symbols := c.symbols
  scope := scope
  options := c.options

/-- Reads and binds a text. What was found while reading is reported first. -/
def bindRequest (c : Compilation) (r : Request) : TypeM RequestResult := fun types =>
  let parsed := parse r.text
  let read : Bag := { file := r.file, entries := parsed.diagnostics r.file }
  let (expr, s) := (c.binder parsed r.scope).bind (some parsed.root)
    { types, bag := { file := r.file } }
  ({ file := r.file, arena := parsed.arena, expr, bag := read.extend s.bag }, s.types)

end Compilation

end UpdateExpr
