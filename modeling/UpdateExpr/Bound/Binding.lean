import UpdateExpr.Bound.Update

/-!
# Binding

A node is bound by what it is: a literal, a name, a member, a call, parentheses or an update. The
rule for a node is a function of the rule for nested expressions, and the depth that is left is the
measure by which they recur, so that binding ends on any arena, even where nodes lead back to
themselves.

## Main definitions

* `Binder.node`: the rule for one node
* `Binder.expr`: an expression, down to a depth
* `Binder.bind`, `Binder.value`: an expression, and one that is used as a value
-/

namespace UpdateExpr

namespace Binder

/-- A literal. One that is out of range was reported by whoever read it. -/
def literal (node : NodeRef) : LiteralValue → BoundExpr
  | .int v => .literal ⟨node, some Intrinsic.int.id, false⟩ (.int v)
  | .long v => .literal ⟨node, some Intrinsic.long.id, false⟩ (.long v)
  | .double v => .literal ⟨node, some Intrinsic.double.id, false⟩ (.double v)
  | .text v => .literal ⟨node, some .string, false⟩ (.text v)
  | .invalid => .failure node

/-- A name, which stands for a local variable. -/
def name (b : Binder) (node : NodeRef) (name : String) : BindM BoundExpr := do
  match b.scope.lookup? name with
  | some v => return .localVar ⟨node, some v.ty, false⟩ v.id
  | none =>
    b.report node .unknownName [name]
    return .failure node

/-- A member of an expression, used as a value or called. A missing name was reported by whoever
read it. -/
def memberNode (b : Binder) (nested : NodeRef → BindM BoundExpr) (node : NodeRef)
    (invoked : Bool) : BindM BoundExpr := do
  match b.arena.shape? node with
  | some (.access target nameNode) =>
    let receiver ← b.readable (← nested target)
    let name := b.arena.name nameNode
    if name = "" then return .failure node [] [receiver]
    else
      let e ← b.member nameNode receiver name 0 invoked
      return e.setNode node
  | _ => return .failure node

/-- A call of a member. -/
def callNode (b : Binder) (nested : NodeRef → BindM BoundExpr) (node target : NodeRef) :
    BindM BoundExpr := do
  let method ← b.memberNode nested target true
  let nameNode := match b.arena.shape? target with
    | some (.access _ nameNode) => nameNode
    | _ => target
  b.invoke node method (b.arena.name nameNode)

/-- The rule for one node. -/
def node (b : Binder) (nested : NodeRef → BindM BoundExpr) (node : NodeRef) :
    BindM BoundExpr := do
  match b.arena.get? node with
  | none | some ⟨_, _, true⟩ => return .failure node
  | some ⟨shape, _, false⟩ =>
    match shape with
    | .token .trueKeyword => return .literal ⟨node, some Intrinsic.bool.id, false⟩ (.bool true)
    | .token .falseKeyword => return .literal ⟨node, some Intrinsic.bool.id, false⟩ (.bool false)
    | .token .nullKeyword => return .literal ⟨node, none, false⟩ .null
    | .token .identifier => b.name node ""
    | .identifier name => b.name node name
    | .literal value _ _ => return literal node value
    | .access _ _ => b.memberNode nested node false
    | .call target => b.callNode nested node target
    | .paren inner => nested inner
    | .update _ _ _ => b.update nested node
    | .token _ | .initializer _ _ => return .failure node

/-- An expression, down to a depth. What lies deeper is reported and left out. -/
def expr (b : Binder) : Nat → NodeRef → BindM BoundExpr
  | 0, node => do
    b.report node .nestedTooDeeply
    return .failure node
  | depth + 1, node => b.node (b.expr depth) node

/-- An expression within an expression that is bound as a whole. -/
def bind (b : Binder) (node : NodeRef) : BindM BoundExpr :=
  b.expr b.options.maxDepth node

/-- An expression that is used as a value. -/
def value (b : Binder) (use : ValueUse) (node : NodeRef) : BindM BoundExpr := do
  let e ← b.bind node
  b.check use e

/-- An update at the top. -/
def bindUpdate (b : Binder) (node : NodeRef) : BindM BoundExpr :=
  b.update b.bind node

end Binder

end UpdateExpr
