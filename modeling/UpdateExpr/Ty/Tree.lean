import UpdateExpr.Ty.Table

/-!
# Types as trees

The tree of a type shows all that its handle stands for, down to the intrinsic types, definitions
and parameters that it is made of. Trees do not depend on the table: two handles, even of different
tables, mean the same when their trees are equal.

## Main definitions

* `Ty`: a type as a tree
* `TypeTable.expand`: the tree of a handle
* `Ty.intern`: the handle of a tree
-/

namespace UpdateExpr

/-- A type, with all its parts. -/
inductive Ty where
  /-- A handle that was never given out. -/
  | unknown (ty : TypeId)
  | intrinsic (kind : Intrinsic)
  | plain (definition : DefId)
  | applied (definition : DefId) (args : List Ty)
  | parameter (owner : DefId) (index : Nat)
  | nullable (inner : Ty)
  deriving Repr, Inhabited

namespace TypeTable

/-- The tree of a handle, down to `n` levels. -/
def expandTo (t : TypeTable) : Nat → TypeId → Ty
  | 0, ty => .unknown ty
  | n + 1, ty =>
    match t.shape? ty with
    | none => .unknown ty
    | some (.intrinsic k) => .intrinsic k
    | some (.plain d) => .plain d
    | some (.applied d args) => .applied d (args.map (t.expandTo n))
    | some (.parameter owner index) => .parameter owner index
    | some (.nullable inner) => .nullable (t.expandTo n inner)

/-- The tree of a handle. A type whose parts never lead back to it has no more levels than the
table has types. -/
def expand (t : TypeTable) (ty : TypeId) : Ty :=
  t.expandTo (t.size + 1) ty

end TypeTable

mutual

/-- The handle of a tree. Parts are asked for before the whole, from left to right; a handle that
was never given out stands for itself. -/
def Ty.intern : Ty → TypeM TypeId
  | .unknown ty => pure ty
  | .intrinsic k => pure k.id
  | .plain d => TypeTable.plain d
  | .applied d args => do TypeTable.applied d (← Ty.internAll args)
  | .parameter owner index => TypeTable.parameter owner index
  | .nullable inner => do TypeTable.nullable (← inner.intern)

/-- The handles of some trees, from left to right. -/
def Ty.internAll : List Ty → TypeM (List TypeId)
  | [] => pure []
  | ty :: rest => do return (← ty.intern) :: (← Ty.internAll rest)

end

end UpdateExpr
