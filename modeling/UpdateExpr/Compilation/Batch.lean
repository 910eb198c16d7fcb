import UpdateExpr.Compilation.Request
import UpdateExpr.Diagnostic.Sink

/-!
# Batches of requests

The requests of a batch are bound one after the other. A batch may be cancelled at any point: what
was begun is finished, and the rest is skipped.

## Main definitions

* `Cancellation`: when a batch is cancelled
* `Batch`, `Compilation.bindAll`: what became of the requests of a batch
* `Batch.diagnostics`: all that was reported, sorted

## Main results

* `Batch.skipped_add_length_bound`: every request is bound or skipped
-/

namespace UpdateExpr

/-- When a batch is cancelled. -/
inductive Cancellation where
  | never
  /-- Before the request with a number is begun. -/
  | before (request : Nat)
  deriving DecidableEq, Repr, Inhabited

/-- Whether the request with a number is skipped. -/
def Cancellation.skips (c : Cancellation) (request : Nat) : Bool :=
  match c with
  | never => false
  | before first => first ≤ request

/-- What became of the requests of a batch, in their order; nothing, if a request was skipped. -/
structure Batch where
  results : List (Option RequestResult) := []
  deriving Repr, Inhabited

namespace Batch

/-- What was bound. -/
def bound (b : Batch) : List RequestResult :=
  b.results.filterMap fun r => r

/-- The number of requests that were skipped. -/
def skipped (b : Batch) : Nat :=
  b.results.countP (·.isNone)

/-- All that was reported, sorted. -/
def diagnostics (b : Batch) : List Diagnostic :=
  (b.bound.foldl (fun (sink : Sink) r => sink.append r.bag) {}).sorted

/-- Whether an error was reported. -/
def hasErrors (b : Batch) : Bool :=
  b.diagnostics.any (·.isError)

/-- **Every request is bound or skipped.** -/
theorem skipped_add_length_bound (b : Batch) : b.skipped + b.bound.length = b.results.length := by
  obtain ⟨results⟩ := b
  simp only [skipped, bound]
  induction results with
  | nil => rfl
  | cons r rest ih =>
    cases r with
    | none =>
      simp only [List.countP_cons, List.filterMap_cons, Option.isNone_none, if_true,
        List.length_cons]
      omega
    | some r =>
      simp only [List.countP_cons, List.filterMap_cons, Option.isNone_some,
        Bool.false_eq_true, if_false, List.length_cons]
      omega

end Batch

namespace Compilation

/-- What becomes of some requests of a batch, the first of which has number `n`. -/
def bindFrom (c : Compilation) (cancellation : Cancellation) :
    Nat → List Request → TypeM (List (Option RequestResult))
  | _, [] => pure []
  | n, r :: rest => do
    let result ← if cancellation.skips n then pure none else some <$> c.bindRequest r
    let others ← c.bindFrom cancellation (n + 1) rest
    return result :: others

/-- Binds the requests of a batch. -/
def bindAll (c : Compilation) (cancellation : Cancellation) (requests : List Request) :
    TypeM Batch := do
  return ⟨← c.bindFrom cancellation 0 requests⟩

end Compilation

end UpdateExpr
