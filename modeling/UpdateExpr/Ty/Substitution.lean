import UpdateExpr.Ty.Table

/-!
# Type arguments for type parameters

The members, the base and the interfaces of a generic definition mention its type parameters. Seen
from an application of the definition, the arguments stand in their place.

## Main definitions

* `Substitution`: arguments for the parameters of one definition
* `Substitution.ofType`: the arguments that a type gives to its own definition
* `Substitution.instantiate`: a type with arguments in the place of parameters
* `Substitution.reach`: how many levels a type has at most

## Main results

* `Substitution.instantiate_of_isEmpty`: without arguments nothing changes
-/

namespace UpdateExpr

/-- Arguments for the type parameters of one definition. -/
structure Substitution where
  owner : Option DefId := none
  args : List TypeId := []
  deriving DecidableEq, Repr, Inhabited

namespace Substitution

/-- Whether there are no arguments. -/
def isEmpty (σ : Substitution) : Bool :=
  σ.args.isEmpty

/-- The argument for a type parameter, if there is one. -/
def get? (σ : Substitution) (owner : DefId) (index : Nat) : Option TypeId :=
  if σ.owner = some owner then σ.args[index]? else none

/-- The arguments that a type gives to its own definition. -/
def ofType (t : TypeTable) (ty : TypeId) : Substitution :=
  match t.defAndArgs? ty with
  | some (d, arg :: args) => ⟨some d, arg :: args⟩
  | _ => {}

/-- A type with arguments in the place of parameters, down to `n` levels. A parameter without an
argument stays, as does a handle that stands for nothing. Each part is looked up when its turn
comes, in the table that the parts before it left. -/
def instantiateTo (σ : Substitution) : Nat → TypeId → TypeM TypeId
  | 0, ty => pure ty
  | n + 1, ty => fun t =>
    match t.shape? ty with
    | some (.parameter owner index) => ((σ.get? owner index).getD ty, t)
    | some (.applied d args) =>
      let (args, t) := (args.mapM (σ.instantiateTo n)).run t
      TypeTable.applied d args t
    | some (.nullable inner) =>
      let (inner, t) := (σ.instantiateTo n inner).run t
      TypeTable.nullable inner t
    | some (.intrinsic _) | some (.plain _) | none => (ty, t)

/-- A number above every handle that can come up in a type: the handles of the table, those that
its shapes are built from, the type and the arguments. On a way from a type down to its parts that
never comes back to a handle, there are no more levels than that. -/
def reach (σ : Substitution) (t : TypeTable) (ty : TypeId) : Nat :=
  TypeId.bound t.horizon (ty :: σ.args)

/-- A type with arguments in the place of parameters. -/
def instantiate (σ : Substitution) (ty : TypeId) : TypeM TypeId := fun t =>
  if σ.isEmpty || ty.isIntrinsic then (ty, t) else σ.instantiateTo (σ.reach t ty) ty t

/-- Some types with arguments in the place of parameters, from left to right. -/
def instantiateAll (σ : Substitution) : List TypeId → TypeM (List TypeId)
  | [] => pure []
  | ty :: rest => do
    let ty ← σ.instantiate ty
    let rest ← σ.instantiateAll rest
    return ty :: rest

/-- **Without arguments nothing changes.** -/
theorem instantiate_of_isEmpty {σ : Substitution} (h : σ.isEmpty = true) (ty : TypeId)
    (t : TypeTable) : σ.instantiate ty t = (ty, t) := by
  simp [instantiate, h]

/-- **An intrinsic type has no parameters.** -/
@[simp] theorem instantiate_id (σ : Substitution) (k : Intrinsic) (t : TypeTable) :
    σ.instantiate k.id t = (k.id, t) := by
  simp [instantiate]

end Substitution

end UpdateExpr
