import UpdateExpr.Symbol.Lineage
import UpdateExpr.Ty.Identity

/-!
# Conversions

Whether a value of one type can stand where another type is wanted, and by which kind of step.
Type arguments do not vary: two applications of a definition to different arguments are unrelated,
unless they differ by `null` only. The error type converts to and from everything, so that one
fault is reported once.

## Main definitions

* `Conversion`: the kinds of steps
* `SymbolTable.derivesFrom`, `SymbolTable.implements`: relations that a conversion follows
* `Conversion.ofIntrinsics`, `Conversion.ofNull`: conversions between intrinsic types, and of `null`
* `SymbolTable.classify`: the conversion from one type to another

## Main results

* `SymbolTable.classify_self`: a type converts to itself without a step
-/

namespace UpdateExpr

/-- The kinds of steps from one type to another. -/
inductive Conversion where
  /-- No step is needed. -/
  | identity
  /-- To a wider type of numbers. -/
  | numeric
  /-- To a type with `null` of values, by identity or by widening. -/
  | nullable
  /-- To a base, to an interface, or from a reference to `object`. -/
  | reference
  /-- From a value to `object`. -/
  | boxing
  /-- From `null` to a type that has it. -/
  | nullLiteral
  /-- A step that has to be asked for. -/
  | explicitOnly
  | none
  deriving DecidableEq, Repr, Inhabited

namespace Conversion

/-- Whether a step is taken without being asked for. -/
def isImplicit : Conversion → Bool
  | explicitOnly | none => false
  | identity | numeric | nullable | reference | boxing | nullLiteral => true

/-- The conversion from one intrinsic type to another. -/
def ofIntrinsics (source target : Intrinsic) : Conversion :=
  if source = target then identity
  else
    match source, target with
    | .int, .long | .int, .double | .long, .double => numeric
    | .long, .int | .double, .int | .double, .long => explicitOnly
    | _, .object => if source.isValueType then boxing else none
    | .object, _ => if target.isValueType then explicitOnly else none
    | _, _ => none

/-- The conversion of `null` to a type. -/
def ofNull (t : TypeTable) (target : TypeId) : Conversion :=
  if target.isError || t.isReference target || (t.nullableInner? target).isSome then nullLiteral
  else none

/-- The conversion to a type with `null` added to the target of a conversion. -/
def intoNullable : Conversion → Conversion
  | identity | numeric => nullable
  | none => none
  | reference | nullable | boxing | nullLiteral | explicitOnly => explicitOnly

/-- The conversion from a type with `null` added to the source of a conversion. -/
def outOfNullable : Conversion → Conversion
  | none => none
  | boxing => boxing
  | identity | numeric | nullable | reference | nullLiteral | explicitOnly => explicitOnly

end Conversion

namespace SymbolTable

/-- Whether a type, without its `null`, is a target or has it among its bases. -/
def derivesFrom (s : SymbolTable) (strictness : Strictness) (ty target : TypeId) : QueryM Bool := do
  let chain ← s.baseChain ((← QueryM.types).strip ty)
  let types ← QueryM.types
  return chain.any (types.areIdentical strictness · target)

/-- Whether a type or one of its bases has an interface, directly or by way of others. -/
def implements (s : SymbolTable) (ty interface : TypeId) : QueryM Bool := do
  let chain ← s.baseChain ((← QueryM.types).strip ty)
  chain.anyM fun base => do
    let closure ← s.interfaceClosure base
    let types ← QueryM.types
    return closure.any (types.areIdentical .ignoreNull · interface)

/-- The conversion between two types of references; `null` does not matter. -/
def classifyReferences (s : SymbolTable) (source target : TypeId) : QueryM Conversion := do
  let types ← QueryM.types
  let a := types.strip source
  let b := types.strip target
  if types.areIdentical .ignoreNull a b then return .identity
  else if ← pure (b == .object) <||> s.derivesFrom .ignoreNull a b <||> s.implements a b then
    return .reference
  else if ← pure (a == .object) <||> s.derivesFrom .ignoreNull b a then
    return .explicitOnly
  else
    let types ← QueryM.types
    return if s.isInterface types a || s.isInterface types b then .explicitOnly else .none

/-- The conversion between two types, of which at most `n` times `null` is taken away. -/
def classifyWithin (s : SymbolTable) : Nat → TypeId → TypeId → QueryM Conversion
  | 0, _, _ => pure .none
  | n + 1, source, target => do
    let types ← QueryM.types
    if source.isError || target.isError || source == target then return .identity
    else if types.isReference source && types.isReference target then
      s.classifyReferences source target
    else
      match types.intrinsic? source, types.intrinsic? target with
      | some a, some b => return .ofIntrinsics a b
      | _, _ =>
        match types.nullableInner? target, types.nullableInner? source with
        | some inner, _ =>
          return (← s.classifyWithin n (types.strip source) inner).intoNullable
        | none, some inner => return (← s.classifyWithin n inner target).outOfNullable
        | none, none => return .none

/-- The conversion of a value of one type to another. -/
def classify (s : SymbolTable) (source target : TypeId) : QueryM Conversion := do
  s.classifyWithin ((← QueryM.types).size + 1) source target

/-- **A type converts to itself without a step.** -/
theorem classify_self (s : SymbolTable) (ty : TypeId) (q : QueryState) :
    s.classify ty ty q = (.identity, q) := by
  show (if ty.isError || ty.isError || ty == ty then pure .identity else _ : QueryM Conversion) q =
    _
  rw [beq_self_eq_true, Bool.or_true, if_pos rfl]
  rfl

end SymbolTable

end UpdateExpr
