import UpdateExpr.Bound.Binder

/-!
# Uses of bound expressions

A bound expression is read, assigned to, or converted to a type that is wanted. Where it cannot be
used so, this is reported and the result is marked as faulty.

## Main definitions

* `Binder.readable`: an expression that is read
* `Binder.objection?`, `Binder.assignable`: an expression that is assigned to
* `Binder.convert`: an expression that is brought to a type
* `Binder.fit`, `Binder.assign`: the value of an assignment, and an assignment
-/

namespace UpdateExpr

/-- What an expression is used for. -/
inductive ValueUse where
  /-- Its value is read. -/
  | read
  /-- It is the target of an assignment. -/
  | target
  deriving DecidableEq, Repr, Inhabited

namespace Binder

/-- The expression as one whose value is read. A group of methods has no value. -/
def readable (b : Binder) (e : BoundExpr) : BindM BoundExpr := do
  match e with
  | .methodGroup info _ methods =>
    let name ← match methods with
      | [] => pure ""
      | m :: _ => b.memberName m.member
    b.report info.node .methodGroupAsValue [name]
    return .failure info.node e.symbol?.toList [e]
  | e => return e

/-- Why a property cannot be set, within an initializer or outside. -/
def setterObjection? (inInitializer : Bool) : MemberShape → Option Issue
  | .property _ .absent => some .propertyReadOnly
  | .property _ .initOnly => if inInitializer then none else some .initOnlyProperty
  | .property _ .always | .field _ _ | .method _ _ _ => none

/-- Why an expression cannot be assigned to, within an initializer or outside, and the member that
stands in the way. -/
def objection? (b : Binder) (inInitializer : Bool) : BoundExpr → Option (Issue × MemberId)
  | .field _ _ m =>
    if (b.symbols.member? m).any (·.isSettable false) then none else some (.fieldReadOnly, m)
  | .property _ _ m =>
    ((b.symbols.member? m).bind fun member =>
      setterObjection? inInitializer member.shape).map (·, m)
  | .methodGroup _ _ methods => methods.head?.map fun m => (.methodGroupAssigned, m.member)
  | _ => none

/-- The expression as one that is assigned to. A faulty expression was reported before. -/
def assignable (b : Binder) (inInitializer : Bool) (e : BoundExpr) : BindM BoundExpr := do
  if e.hasErrors then return e
  else
    match b.objection? inInitializer e with
    | none => return e
    | some (issue, m) =>
      b.report e.node issue [← b.memberName m]
      return .failure e.node [m] [e]

/-- The expression as one that is used in a certain way, outside of initializers. -/
def check (b : Binder) (use : ValueUse) (e : BoundExpr) : BindM BoundExpr :=
  match use with
  | .read => b.readable e
  | .target => b.assignable false e

/-- The conversion of an expression to a type, and whether questions about it met a fault. -/
def conversionOf (b : Binder) (e : BoundExpr) (target : TypeId) : BindM (Conversion × Bool) := do
  if e.isNull then return (.ofNull (← BindM.types) target, false)
  else
    match e.ty? with
    | none => return (.identity, false)
    | some ty =>
      let (conversion, notes) ← BindM.ask (b.symbols.classify ty target)
      return (conversion, ← b.reportNotes e.node notes)

/-- The expression brought to a type. -/
def convert (b : Binder) (e : BoundExpr) (target : TypeId) : BindM BoundExpr := do
  let (conversion, faulty) ← b.conversionOf e target
  if conversion = .identity then return e.addErrors faulty
  else if conversion.isImplicit then
    return .conversion ⟨e.node, some target, e.hasErrors || faulty⟩ e conversion
  else
    let issue := if conversion = .explicitOnly then Issue.explicitConversionOnly else .noConversion
    b.report e.node issue [← b.typeName e.ty?, ← b.typeName (some target)]
    return .conversion ⟨e.node, some target, true⟩ e conversion

/-- The value of an assignment, brought to the type of the target. A target that is faulty, or has
no type, takes any value. -/
def fit (b : Binder) (left right : BoundExpr) : BindM BoundExpr := do
  if left.hasErrors then return right
  else
    match left.ty? with
    | some ty => if ty.isError then return right else b.convert right ty
    | none => return right

/-- An assignment, of the type of its target. -/
def assign (b : Binder) (node : NodeRef) (left right : BoundExpr) : BindM BoundExpr := do
  let right ← b.fit left right
  return .assignment ⟨node, left.ty?, left.hasErrors || right.hasErrors⟩ left right

end Binder

end UpdateExpr
