import UpdateExpr.Bound.Member

/-!
# Updates

An update `receiver with { name = value, … }` copies its receiver by a method of it that is named
`Clone` and takes no arguments, and then sets members of the copy. Binding never stops: the
receiver, the clone method and each initializer may fail on their own, and the rest is bound with
what is known.

## Main definitions

* `CloneChoice`, `Binder.chooseClone`: the clone method for a type of receivers
* `Binder.receiver`: the receiver of an update
* `Binder.initializer`: one initializer
* `Binder.update`: an update
-/

namespace UpdateExpr

/-- The name of the method that copies a receiver. -/
def cloneName : String :=
  "Clone"

/-- The clone method for a receiver, if there is one, and whether anything was wrong with it. -/
structure CloneChoice where
  method? : Option Candidate := none
  failed : Bool := false
  deriving DecidableEq, Repr, Inhabited

/-- An initializer: the member it sets, if it names one, its value, and whether it is faulty. -/
structure BoundInitializer where
  member? : Option MemberId
  value : BoundExpr
  failed : Bool
  deriving Repr, Inhabited

namespace Binder

/-- Whether a receiver type is, or derives from, what its clone method returns; if not, this is
reported. -/
def checkCloneType (b : Binder) (node : NodeRef) (receiver returned : TypeId) : BindM Bool := do
  let (derives, _) ← BindM.ask (b.symbols.derivesFrom .ignoreNull receiver returned)
  if derives then return true
  else
    b.report node .cloneReturnType [← b.typeName (some receiver), ← b.typeName (some returned)]
    return false

/-- Whether the choice of a clone method is clear enough; if not, this is reported. -/
def checkCloneChoice (b : Binder) (node : NodeRef) (receiver : TypeId) (choice : Candidate)
    (others : List Candidate) : BindM Bool := do
  match b.options.reportAmbiguousClone, others with
  | true, other :: _ =>
    b.report node .ambiguousClone [← b.typeName (some receiver), ← b.memberName choice.member,
      ← b.memberName other.member]
    return false
  | _, _ => return true

/-- The clone method for a type of receivers: the first one without parameters. What questions
about it note is not reported. -/
def chooseClone (b : Binder) (node : NodeRef) (receiver : TypeId) : BindM CloneChoice := do
  if receiver.isError then return {}
  else
    let (found, _) ← BindM.ask <| b.symbols.lookup receiver {
      name := cloneName
      instanceOnly := true
      invocableOnly := true
      asking? := b.scope.containing? }
    match if found.isViable then found.parameterless else [] with
    | [] =>
      b.report node .noCloneMethod [← b.typeName (some receiver)]
      return { failed := true }
    | choice :: others =>
      let clear ← b.checkCloneChoice node receiver choice others
      let derives ← b.checkCloneType node receiver choice.ty
      return { method? := some choice, failed := !clear || !derives }

/-- The receiver of an update and its type. One without a type, or of the type without values, is
faulty and counts as one of the error type. -/
def receiver (b : Binder) (nested : NodeRef → BindM BoundExpr) (node : NodeRef) :
    BindM (BoundExpr × TypeId) := do
  let e ← b.readable (← nested node)
  match e.ty?.filter (· ≠ .void) with
  | some ty => return (e, ty)
  | none =>
    b.report node .invalidUpdateReceiver
    return (e.addErrors true, .error)

/-- One initializer, whose name, if it has one, is that of a member of the copy. A node that is no
initializer is faulty. -/
def initializer (b : Binder) (nested : NodeRef → BindM BoundExpr) (copy : BoundExpr)
    (node : NodeRef) : BindM BoundInitializer := do
  match b.arena.shape? node with
  | some (.initializer nameNode valueNode) =>
    let name := b.arena.name nameNode
    if name = "" then
      let value ← b.readable (← nested valueNode)
      return ⟨none, value, value.hasErrors⟩
    else
      let target ← b.member nameNode copy name 0 false
      let target ← b.assignable true target
      let value ← b.readable (← nested valueNode)
      let value ← b.fit target value
      return ⟨target.symbol?, value, target.hasErrors || value.hasErrors⟩
  | _ => return ⟨none, .failure node, true⟩

/-- Some initializers, from left to right. -/
def initializers (b : Binder) (nested : NodeRef → BindM BoundExpr) (copy : BoundExpr) :
    List NodeRef → BindM (List BoundInitializer)
  | [] => pure []
  | node :: rest => do
    let bound ← b.initializer nested copy node
    let others ← b.initializers nested copy rest
    return bound :: others

/-- An update. It has the type that its clone method returns, or else that of its receiver. -/
def update (b : Binder) (nested : NodeRef → BindM BoundExpr) (node : NodeRef) :
    BindM BoundExpr := do
  match b.arena.shape? node with
  | some (.update receiverNode entries _) =>
    let (receiver, receiverType) ← b.receiver nested receiverNode
    let clone ← b.chooseClone receiverNode receiverType
    let ty := (clone.method?.map (·.ty)).getD receiverType
    let bound ← b.initializers nested (.placeholder ⟨receiverNode, some ty, false⟩) entries
    let failed := receiver.hasErrors || clone.failed || bound.any (·.failed)
    return .update ⟨node, some ty, failed⟩ receiver (clone.method?.map (·.member))
      (bound.map fun i => (i.member?, i.value)) failed
  | _ => return .failure node

end Binder

end UpdateExpr
