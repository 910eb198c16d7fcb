import UpdateExpr.Symbol.UseSite
import UpdateExpr.Symbol.Table
import UpdateExpr.Ty.Substitution

/-!
# Questions about symbols

An answer may need types that the table of types does not have yet, and may leave notes. Both are
the state of a question.

## Main definitions

* `QueryState`, `QueryM`: types and notes, and a question that may add to both
* `QueryM.note`: leaves a note
* `QueryM.types`: the types so far
-/

namespace UpdateExpr

/-- The types and notes of a question under way. -/
structure QueryState where
  types : TypeTable
  notes : List UseSite := []
  deriving DecidableEq, Repr, Inhabited

/-- A question that may add types and leave notes. -/
abbrev QueryM := StateM QueryState

/-- A computation on types as part of a question. -/
instance : MonadLift TypeM QueryM where
  monadLift m := fun q =>
    let (a, types) := m q.types
    (a, { q with types })

namespace QueryM

/-- Leaves a note, unless it is there already. -/
def note (n : UseSite) : QueryM Unit :=
  modify fun q => { q with notes := UseSite.add q.notes n }

/-- The types so far. -/
def types : QueryM TypeTable := do
  return (← get).types

end QueryM

end UpdateExpr
