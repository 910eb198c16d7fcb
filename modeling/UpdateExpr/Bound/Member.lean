import UpdateExpr.Bound.Value

/-!
# Members of bound expressions

A name behind a receiver stands for a member of the type of the receiver: a field, a property, or a
group of methods. A name that stands for no usable member gives a bad expression, which keeps the
member if there was only one.

## Main definitions

* `Binder.member`: a name behind a receiver
* `Binder.invoke`: a group of methods that is called without arguments
-/

namespace UpdateExpr

namespace Binder

/-- Reports that no member of a name is usable, and why. -/
def reportLookup (b : Binder) (node : NodeRef) (found : Lookup) (receiver : TypeId)
    (name : String) : BindM Unit := do
  let member ← match found.candidates with
    | [] => pure name
    | c :: _ => b.memberName c.member
  match found.verdict with
  | .notInvocable => b.report node .memberNotInvocable [member]
  | .staticMember => b.report node .staticMember [member]
  | .inaccessible => b.report node .memberInaccessible [member]
  | .absent | .wrongArity | .viable =>
    b.report node .memberNotFound [← b.typeName (some receiver), name]

/-- What some usable members stand for; the first one says of which kind they are. -/
def access (b : Binder) (node : NodeRef) (receiver : BoundExpr) (faulty : Bool)
    (members : List Candidate) : BoundExpr :=
  let group := BoundExpr.methodGroup ⟨node, none, faulty⟩ receiver members
  match members with
  | [] => group
  | m :: _ =>
    match (b.symbols.member? m.member).map Member.shape with
    | some (.field _ _) => .field ⟨node, some m.ty, faulty⟩ receiver m.member
    | some (.method _ _ _) => group
    | some (.property _ _) | none => .property ⟨node, some m.ty, faulty⟩ receiver m.member

/-- A name behind a receiver, which is used as a value or called. What goes wrong is reported at
the node of the name, unless the receiver is of the error type. -/
def member (b : Binder) (node : NodeRef) (receiver : BoundExpr) (name : String) (arity : Nat)
    (invoked : Bool) : BindM BoundExpr := do
  match receiver.ty? with
  | none =>
    b.report node .memberNotFound ["<null>", name]
    return .failure node [] [receiver]
  | some ty =>
    if ty.isError then return .failure node [] [receiver]
    else
      let (found, notes) ← BindM.ask <| b.symbols.lookup ty {
        name, arity
        instanceOnly := true
        invocableOnly := invoked
        asking? := b.scope.containing? }
      let faulty ← b.reportNotes node notes
      if found.isViable then
        return b.access node receiver (receiver.hasErrors || faulty) found.candidates
      else
        b.reportLookup node found ty name
        return .failure node (found.only?.map (·.member)).toList [receiver]

/-- The call of a target without arguments: of the first method in a group that takes none. The
name of the target is for the message where there is no such method. -/
def invoke (b : Binder) (node : NodeRef) (target : BoundExpr) (name : String) :
    BindM BoundExpr := do
  match target with
  | .methodGroup _ receiver methods =>
    match methods.find? (·.params.isEmpty) with
    | some m => return .call ⟨node, some m.ty, receiver.hasErrors⟩ receiver m.member
    | none =>
      b.report node .noParameterlessOverload [name]
      return .failure node (methods.head?.map (·.member)).toList [receiver]
  | target => return .failure node target.symbol?.toList [target]

end Binder

end UpdateExpr
