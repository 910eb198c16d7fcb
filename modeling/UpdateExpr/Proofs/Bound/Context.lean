import UpdateExpr.Proofs.Compilation.Order

/-!
# Binding in a context

While a binder runs it keeps a context: how many expressions it is in, whether it binds the target
of an initializer, the shared table of names, and the types and diagnostics. It counts up before an
expression and down after it, and calls itself for nested expressions with nothing but that count to
stop it. Here binding is written in this way. As its calls may lead back to where they came from,
they are followed for a number of times only, and it has no result if that is not enough. It is then
shown to be binding by depth: on any arena a number of calls is enough, the count and the mark are
left as they were, and no name enters the table but that of clone methods.

## Main definitions

* `BindContext`, `ContextM`: the context of a binder, and a part of binding that may have no result
* `Binder.exprIn`: an expression in a context
* `BindContext.after`: the context after binding
* `Mirrors`: a part of binding in a context does what one without it does
* `Binder.Ends`: binding an expression in a context ends with a result and a context

## Main results

* `Binder.ends_expr`: an expression in a context is an expression down to the depth that is left
* `Binder.ends_bind`: a new binder binds an expression as a whole
-/

namespace UpdateExpr

/-- What a binder keeps while it runs. -/
structure BindContext where
  /-- The number of expressions that are being bound, one within another. -/
  depth : Nat := 0
  /-- Whether the target of an initializer is being bound. -/
  inInitializer : Bool := false
  names : NameTable
  state : BindState
  deriving DecidableEq, Repr, Inhabited

/-- A part of binding in a context; nothing, if its calls were not followed to the end. -/
abbrev ContextM := StateT BindContext Option

instance : MonadLift BindM ContextM where
  monadLift m := fun c => some ((m c.state).1, { c with state := (m c.state).2 })

namespace Binder

/-! ## The rules -/

/-- An expression as one that is used in a certain way. -/
def checkIn (b : Binder) (use : ValueUse) (e : BoundExpr) : ContextM BoundExpr := do
  match use with
  | .read => b.readable e
  | .target => b.assignable (← get).inInitializer e

/-- The member of the copy that an initializer sets. Only here may a setter run that is for
initializers only. -/
def targetIn (b : Binder) (copy : BoundExpr) (nameNode : NodeRef) : ContextM BoundExpr := do
  let target ← b.member nameNode copy (b.arena.name nameNode) 0 false
  let was := (← get).inInitializer
  modify fun c => { c with inInitializer := true }
  let target ← b.checkIn .target target
  modify fun c => { c with inInitializer := was }
  return target

/-- The clone method for a type of receivers. Its name enters the table of names. -/
def cloneIn (b : Binder) (node : NodeRef) (receiver : TypeId) : ContextM CloneChoice := do
  if receiver.isError then return {}
  else
    modify fun c => { c with names := c.names.insert cloneName }
    b.chooseClone node receiver

/-- An expression that is used in a certain way. -/
def valueIn (b : Binder) (nested : NodeRef → ContextM BoundExpr) (use : ValueUse)
    (node : NodeRef) : ContextM BoundExpr := do
  let e ← nested node
  b.checkIn use e

/-- A member of an expression, used as a value or called. -/
def memberIn (b : Binder) (nested : NodeRef → ContextM BoundExpr) (node : NodeRef)
    (invoked : Bool) : ContextM BoundExpr := do
  match b.arena.shape? node with
  | some (.access target nameNode) =>
    let receiver ← b.valueIn nested .read target
    let name := b.arena.name nameNode
    if name = "" then return .failure node [] [receiver]
    else
      let e ← b.member nameNode receiver name 0 invoked
      return e.setNode node
  | _ => return .failure node

/-- A call of a member. What is in front of the member is bound here. -/
def callIn (b : Binder) (nested : NodeRef → ContextM BoundExpr) (node target : NodeRef) :
    ContextM BoundExpr := do
  let method ← b.memberIn nested target true
  let nameNode := match b.arena.shape? target with
    | some (.access _ nameNode) => nameNode
    | _ => target
  b.invoke node method (b.arena.name nameNode)

/-- The receiver of an update and its type. -/
def receiverIn (b : Binder) (nested : NodeRef → ContextM BoundExpr) (node : NodeRef) :
    ContextM (BoundExpr × TypeId) := do
  let e ← b.valueIn nested .read node
  match e.ty?.filter (· ≠ .void) with
  | some ty => return (e, ty)
  | none =>
    b.report node .invalidUpdateReceiver
    return (e.addErrors true, .error)

/-- One initializer. -/
def initializerIn (b : Binder) (nested : NodeRef → ContextM BoundExpr) (copy : BoundExpr)
    (node : NodeRef) : ContextM BoundInitializer := do
  match b.arena.shape? node with
  | some (.initializer nameNode valueNode) =>
    if b.arena.name nameNode = "" then
      let value ← b.valueIn nested .read valueNode
      return ⟨none, value, value.hasErrors⟩
    else
      let target ← b.targetIn copy nameNode
      let value ← b.valueIn nested .read valueNode
      let value ← b.fit target value
      return ⟨target.symbol?, value, target.hasErrors || value.hasErrors⟩
  | _ => return ⟨none, .failure node, true⟩

/-- Some initializers, from left to right. -/
def initializersIn (b : Binder) (nested : NodeRef → ContextM BoundExpr) (copy : BoundExpr) :
    List NodeRef → ContextM (List BoundInitializer)
  | [] => pure []
  | node :: rest => do
    let bound ← b.initializerIn nested copy node
    let others ← b.initializersIn nested copy rest
    return bound :: others

/-- An update. -/
def updateIn (b : Binder) (nested : NodeRef → ContextM BoundExpr) (node : NodeRef) :
    ContextM BoundExpr := do
  match b.arena.shape? node with
  | some (.update receiverNode entries _) =>
    let (receiver, receiverType) ← b.receiverIn nested receiverNode
    let clone ← b.cloneIn receiverNode receiverType
    let ty := (clone.method?.map (·.ty)).getD receiverType
    let bound ← b.initializersIn nested (.placeholder ⟨receiverNode, some ty, false⟩) entries
    let failed := receiver.hasErrors || clone.failed || bound.any (·.failed)
    return .update ⟨node, some ty, failed⟩ receiver (clone.method?.map (·.member))
      (bound.map fun i => (i.member?, i.value)) failed
  | _ => return .failure node

/-- The rule for one node. -/
def nodeIn (b : Binder) (nested : NodeRef → ContextM BoundExpr) (node : NodeRef) :
    ContextM BoundExpr := do
  match b.arena.get? node with
  | none | some ⟨_, _, true⟩ => return .failure node
  | some ⟨shape, _, false⟩ =>
    match shape with
    | .token .trueKeyword => return .literal ⟨node, some Intrinsic.bool.id, false⟩ (.bool true)
    | .token .falseKeyword => return .literal ⟨node, some Intrinsic.bool.id, false⟩ (.bool false)
    | .token .nullKeyword => return .literal ⟨node, none, false⟩ .null
    | .token .identifier => b.name node ""
    | .identifier name => b.name node name
    | .literal value _ _ => return literal node value
    | .access _ _ => b.memberIn nested node false
    | .call target => b.callIn nested node target
    | .paren inner => nested inner
    | .update _ _ _ => b.updateIn nested node
    | .token _ | .initializer _ _ => return .failure node

/-- An expression, with calls for nested expressions followed for a number of times. At the limit an
expression is reported and left out. -/
def exprIn (b : Binder) : Nat → NodeRef → ContextM BoundExpr
  | 0, _ => fun _ => none
  | calls + 1, node => do
    if b.options.maxDepth ≤ (← get).depth then
      b.report node .nestedTooDeeply
      return .failure node
    else
      modify fun c => { c with depth := c.depth + 1 }
      let e ← b.nodeIn (b.exprIn calls) node
      modify fun c => { c with depth := c.depth - 1 }
      return e

end Binder

/-! ## Contexts -/

namespace BindContext

/-- The context after binding led to a state, with or without a question about clone methods. -/
def after (c : BindContext) (s : BindState) (asked : Bool) : BindContext where
  depth := c.depth
  inInitializer := c.inInitializer
  names := if asked then c.names.insert cloneName else c.names
  state := s

variable (c : BindContext) (s s' : BindState) (p q : Bool)

@[simp] theorem depth_after : (c.after s p).depth = c.depth := rfl

@[simp] theorem inInitializer_after : (c.after s p).inInitializer = c.inInitializer := rfl

@[simp] theorem state_after : (c.after s p).state = s := rfl

@[simp] theorem after_after : (c.after s p).after s' q = c.after s' (p || q) := by
  cases p <;> cases q <;> simp [after, NameTable.insert_insert]

end BindContext

/-- From a context, a part of binding does what one without the context does: it has the same result
and state, and the names are those with a question about clone methods or without. -/
structure Mirrors {α : Type} (x : ContextM α) (y : BindM α) (c : BindContext) (a : α)
    (s : BindState) (asked : Bool) : Prop where
  plain : y c.state = (a, s)
  within : x c = some (a, c.after s asked)

section Mirrors

variable {α β : Type} {x : ContextM α} {y : BindM α} {f : α → ContextM β} {g : α → BindM β}
  {c : BindContext} {a : α} {r : β} {s s' : BindState} {p q o : Bool}

theorem mirrors_pure (a : α) (c : BindContext) : Mirrors (pure a) (pure a) c a c.state false :=
  ⟨rfl, rfl⟩

theorem mirrors_lift (h : y c.state = (a, s)) : Mirrors (liftM y) y c a s false where
  plain := h
  within := by
    show some ((y c.state).1, { c with state := (y c.state).2 }) = _
    rw [h]
    rfl

theorem Mirrors.bind (h : Mirrors x y c a s p) (h' : Mirrors (f a) (g a) (c.after s p) r s' q)
    (ho : (p || q) = o) : Mirrors (x >>= f) (y >>= g) c r s' o where
  plain := by
    rw [bind_apply, h.plain]
    exact h'.plain
  within := by
    show (x c).bind (fun z => f z.1 z.2) = _
    rw [h.within, ← ho, ← c.after_after]
    exact h'.within

/-- The same where the first of two parts is itself made of two. -/
theorem Mirrors.bindThen {γ : Type} {z : BindM γ} {k : γ → BindM α}
    (h : Mirrors x (z >>= k) c a s p) (h' : Mirrors (f a) (g a) (c.after s p) r s' q)
    (ho : (p || q) = o) : Mirrors (x >>= f) (z >>= fun v => k v >>= g) c r s' o :=
  ⟨(h.bind h' ho).plain, (h.bind h' ho).within⟩

end Mirrors

/-! ## Names that are asked for -/

namespace BoundExpr

@[simp] theorem asksClone_failure (node : NodeRef) (candidates : List MemberId)
    (es : List BoundExpr) : (failure node candidates es).asksClone = es.any asksClone :=
  anyAsksClone_eq_any es

@[simp] theorem asksClone_setInfo (i : BoundInfo) (e : BoundExpr) :
    (e.setInfo i).asksClone = e.asksClone := by
  cases e <;> rfl

end BoundExpr

namespace Binder

section Asks

variable {b : Binder} {node : NodeRef} {e e' left right receiver : BoundExpr} {name : String}
  {arity : Nat} {invoked : Bool} {ty : TypeId} {s s' : BindState}

theorem ReadRun.asksClone_eq (h : b.ReadRun e s e' s') : e'.asksClone = e.asksClone := by
  cases h with
  | value _ => rfl
  | group _ _ => simp

theorem ConvertRun.asksClone_eq (h : b.ConvertRun e ty s e' s') : e'.asksClone = e.asksClone := by
  cases h with
  | same _ => exact BoundExpr.asksClone_setInfo _ _
  | implicit _ _ _ => rfl
  | refused _ _ _ _ _ => rfl

theorem FitRun.asksClone_eq (h : b.FitRun left right s e s') : e.asksClone = right.asksClone := by
  cases h with
  | kept _ => rfl
  | converted _ _ _ hc => exact hc.asksClone_eq

theorem asksClone_access (node : NodeRef) (receiver : BoundExpr) (faulty : Bool)
    (members : List Candidate) :
    (b.access node receiver faulty members).asksClone = receiver.asksClone := by
  unfold access
  split
  · rfl
  · split <;> rfl

theorem MemberRun.asksClone_eq (h : b.MemberRun node receiver name arity invoked s e s') :
    e.asksClone = receiver.asksClone := by
  cases h with
  | found _ _ _ _ => exact asksClone_access _ _ _ _
  | typeless _ _ => simp
  | faulty _ => simp
  | missing _ _ _ _ _ _ => simp

theorem InvokeRun.asksClone_eq (h : b.InvokeRun node e s e' s') : e'.asksClone = e.asksClone := by
  cases h with
  | called h _ => rw [h]; rfl
  | overloads _ h => rw [h]; simp [BoundExpr.asksClone]
  | other _ => simp

end Asks

/-! ## The rules in a context -/

/-- From contexts of a depth, one rule for nested expressions does what another one does. -/
def MirrorsNested (inner : NodeRef → ContextM BoundExpr) (nested : NodeRef → BindM BoundExpr)
    (depth : Nat) : Prop :=
  ∀ node c, c.depth = depth → ∃ e s, Mirrors (inner node) (nested node) c e s e.asksClone

section Rules

variable {b : Binder} {inner : NodeRef → ContextM BoundExpr} {nested : NodeRef → BindM BoundExpr}
  {depth : Nat} {c : BindContext}

theorem mirrors_operand (hn : MirrorsNested inner nested depth) (node : NodeRef)
    (hc : c.depth = depth) :
    ∃ e s, Mirrors (b.valueIn inner .read node) (nested node >>= b.readable) c e s e.asksClone := by
  obtain ⟨e, s, he⟩ := hn node c hc
  rcases hr : b.readable e s with ⟨r, s'⟩
  rw [valueIn]
  refine ⟨r, s', he.bind (mirrors_lift hr) ?_⟩
  rw [(read_run hr).asksClone_eq, Bool.or_false]

theorem mirrors_member (hn : MirrorsNested inner nested depth) (node : NodeRef) (invoked : Bool)
    (hc : c.depth = depth) :
    ∃ e s, Mirrors (b.memberIn inner node invoked) (b.memberNode nested node invoked) c e s
      e.asksClone := by
  rw [memberIn, memberNode]
  cases b.arena.shape? node with
  | none => exact ⟨_, _, mirrors_pure _ c⟩
  | some shape =>
    cases shape with
    | access target nameNode =>
      obtain ⟨r, s, hr⟩ := mirrors_operand hn target hc
      by_cases hname : b.arena.name nameNode = ""
      · simp only [hname, if_true]
        refine ⟨_, s, hr.bindThen (mirrors_pure _ _) ?_⟩
        simp
      · simp only [hname, if_false]
        rcases hm : b.member nameNode r (b.arena.name nameNode) 0 invoked s with ⟨e, s'⟩
        refine ⟨_, s', hr.bindThen ((mirrors_lift hm).bind (mirrors_pure _ _) rfl) ?_⟩
        rw [BoundExpr.setNode, BoundExpr.asksClone_setInfo, (member_run hm).asksClone_eq,
          Bool.or_false, Bool.or_false]
    | _ => exact ⟨_, _, mirrors_pure _ c⟩

theorem mirrors_call (hn : MirrorsNested inner nested depth) (node target : NodeRef)
    (hc : c.depth = depth) :
    ∃ e s, Mirrors (b.callIn inner node target) (b.callNode nested node target) c e s
      e.asksClone := by
  obtain ⟨m, s, hm⟩ := mirrors_member hn target true hc
  rw [callIn, callNode]
  rcases hi : b.invoke node m (b.arena.name (match b.arena.shape? target with
    | some (.access _ nameNode) => nameNode
    | _ => target)) s with ⟨e, s'⟩
  refine ⟨e, s', hm.bind (mirrors_lift hi) ?_⟩
  rw [(invoke_run hi).asksClone_eq, Bool.or_false]

/-! ### Updates -/

/-- The type of a receiver tells whether a clone method is looked for. -/
theorem mirrors_receiver (hn : MirrorsNested inner nested depth) (node : NodeRef)
    (hc : c.depth = depth) :
    ∃ e ty s, Mirrors (b.receiverIn inner node) (b.receiver nested node) c (e, ty) s e.asksClone ∧
      (e.ty?.any fun ty => !ty.isError && ty != .void) = !ty.isError := by
  obtain ⟨e, s, he⟩ := mirrors_operand hn node hc
  rw [receiverIn, Binder.receiver]
  cases ht : e.ty?.filter (· ≠ .void) with
  | some ty =>
    refine ⟨e, ty, s, he.bindThen ?_ (Bool.or_false _), ?_⟩
    · rw [ht]
      exact mirrors_pure _ _
    · obtain ⟨ht, hv⟩ := Option.filter_eq_some_iff.1 ht
      rw [ht, Option.any_some, bne_iff_ne.2 (of_decide_eq_true hv), Bool.and_true]
  | none =>
    have hvoid : ∀ ty ∈ e.ty?, ty = .void := by simpa using ht
    have hfaulty : Mirrors
        (liftM (b.report node .invalidUpdateReceiver) >>= fun _ => pure (e.addErrors true, .error))
        (b.report node .invalidUpdateReceiver >>= fun _ => pure (e.addErrors true, TypeId.error))
        (c.after s e.asksClone) (e.addErrors true, .error)
        (s.tell Issue.invalidUpdateReceiver.code (b.arena.span node) []) false :=
      ⟨rfl, rfl⟩
    refine ⟨e.addErrors true, .error, _, he.bindThen (by rw [ht]; exact hfaulty) ?_, ?_⟩
    · rw [BoundExpr.addErrors, BoundExpr.asksClone_setInfo, Bool.or_false]
    · rw [BoundExpr.ty?_addErrors]
      cases ht : e.ty? with
      | none => rfl
      | some ty =>
        rw [hvoid ty ht]
        rfl

theorem mirrors_clone (node : NodeRef) (ty : TypeId) :
    ∃ choice s, Mirrors (b.cloneIn node ty) (b.chooseClone node ty) c choice s (!ty.isError) := by
  unfold cloneIn
  cases he : ty.isError with
  | true =>
    refine ⟨{}, c.state, ?_, rfl⟩
    rw [chooseClone, he]
    rfl
  | false => exact ⟨_, _, rfl, rfl⟩

/-- The mark that setters for initializers may run is taken back. -/
theorem mirrors_target (copy : BoundExpr) (nameNode : NodeRef) :
    ∃ t s, Mirrors (b.targetIn copy nameNode)
      (b.member nameNode copy (b.arena.name nameNode) 0 false >>= b.assignable true) c t s false :=
  ⟨_, _, rfl, rfl⟩

theorem mirrors_initializer (hn : MirrorsNested inner nested depth) (copy : BoundExpr)
    (node : NodeRef) (hc : c.depth = depth) :
    ∃ i s, Mirrors (b.initializerIn inner copy node) (b.initializer nested copy node) c i s
      i.value.asksClone := by
  rw [initializerIn, initializer]
  cases b.arena.shape? node with
  | none => exact ⟨_, _, mirrors_pure _ c⟩
  | some shape =>
    cases shape with
    | initializer nameNode valueNode =>
      by_cases hname : b.arena.name nameNode = ""
      · obtain ⟨v, s, hv⟩ := mirrors_operand hn valueNode hc
        simp only [hname, if_true]
        exact ⟨_, s, hv.bindThen (mirrors_pure _ _) (Bool.or_false _)⟩
      · obtain ⟨t, s₁, ht⟩ := mirrors_target (b := b) (c := c) copy nameNode
        obtain ⟨v, s₂, hv⟩ := mirrors_operand (c := c.after s₁ false) hn valueNode hc
        rcases hf : b.fit t v s₂ with ⟨v', s'⟩
        simp only [hname, if_false]
        refine ⟨_, s', ht.bindThen (hv.bindThen ((mirrors_lift hf).bind (mirrors_pure _ _) rfl) rfl)
          ?_⟩
        rw [(fit_run hf).asksClone_eq, Bool.or_false, Bool.or_false, Bool.false_or]
    | _ => exact ⟨_, _, mirrors_pure _ c⟩

theorem mirrors_initializers (hn : MirrorsNested inner nested depth) (copy : BoundExpr)
    (nodes : List NodeRef) (hc : c.depth = depth) :
    ∃ is s, Mirrors (b.initializersIn inner copy nodes) (b.initializers nested copy nodes) c is s
      (is.any (·.value.asksClone)) := by
  induction nodes generalizing c with
  | nil =>
    rw [initializersIn]
    exact ⟨_, _, mirrors_pure _ c⟩
  | cons node rest ih =>
    obtain ⟨i, s, hi⟩ := mirrors_initializer hn copy node hc
    obtain ⟨is, s', his⟩ := ih (c := c.after s i.value.asksClone) hc
    rw [initializersIn]
    exact ⟨_, s', hi.bind (his.bind (mirrors_pure _ _) (Bool.or_false _)) rfl⟩

theorem mirrors_update (hn : MirrorsNested inner nested depth) (node : NodeRef)
    (hc : c.depth = depth) :
    ∃ e s, Mirrors (b.updateIn inner node) (b.update nested node) c e s e.asksClone := by
  rw [updateIn, update]
  cases b.arena.shape? node with
  | none => exact ⟨_, _, mirrors_pure _ c⟩
  | some shape =>
    cases shape with
    | update receiverNode entries list =>
      obtain ⟨r, ty, s₁, hr, hty⟩ := mirrors_receiver hn receiverNode hc
      obtain ⟨choice, s₂, hchoice⟩ := mirrors_clone (b := b) (c := c.after s₁ r.asksClone)
        receiverNode ty
      obtain ⟨is, s', his⟩ := mirrors_initializers
        (c := (c.after s₁ r.asksClone).after s₂ (!ty.isError)) hn
        (.placeholder ⟨receiverNode, some ((choice.method?.map (·.ty)).getD ty), false⟩) entries hc
      refine ⟨_, s', hr.bind (hchoice.bind (his.bind (mirrors_pure _ _) rfl) rfl) ?_⟩
      rw [BoundExpr.asksClone, BoundExpr.anyEntryAsksClone_eq_any, List.any_map, hty, Bool.or_false,
        ← Bool.or_assoc, Bool.or_comm r.asksClone]
      rfl
    | _ => exact ⟨_, _, mirrors_pure _ c⟩

/-! ### Nodes -/

theorem asksClone_literal (node : NodeRef) (value : LiteralValue) :
    (literal node value).asksClone = false := by
  cases value <;> rfl

theorem mirrors_name (node : NodeRef) (name : String) :
    ∃ e s, Mirrors (liftM (b.name node name)) (b.name node name) c e s e.asksClone := by
  unfold Binder.name
  cases b.scope.lookup? name with
  | none => exact ⟨_, _, rfl, rfl⟩
  | some v => exact ⟨_, _, rfl, rfl⟩

/-- **The rule for one node.** -/
theorem mirrors_node (hn : MirrorsNested inner nested depth) (node : NodeRef)
    (hc : c.depth = depth) :
    ∃ e s, Mirrors (b.nodeIn inner node) (b.node nested node) c e s e.asksClone := by
  rw [nodeIn, Binder.node]
  cases b.arena.get? node with
  | none => exact ⟨_, _, mirrors_pure _ c⟩
  | some n =>
    obtain ⟨shape, span, missing⟩ := n
    cases missing with
    | true => exact ⟨_, _, mirrors_pure _ c⟩
    | false =>
      cases shape with
      | token kind =>
        cases kind with
        | identifier => exact mirrors_name node ""
        | _ => exact ⟨_, _, mirrors_pure _ c⟩
      | identifier name => exact mirrors_name node name
      | literal value text flags =>
        have hp := mirrors_pure (literal node value) c
        rw [← asksClone_literal node value] at hp
        exact ⟨_, _, hp⟩
      | access target nameNode => exact mirrors_member hn node false hc
      | call target => exact mirrors_call hn node target hc
      | paren inner => exact hn inner c hc
      | update receiver entries list => exact mirrors_update hn node hc
      | initializer name value => exact ⟨_, _, mirrors_pure _ c⟩

end Rules

/-! ## Expressions in a context -/

/-- Binding an expression in a context ends with a result and a context: some number of calls is
enough, and so is every greater one. -/
def Ends (b : Binder) (node : NodeRef) (c : BindContext) (e : BoundExpr) (c' : BindContext) :
    Prop :=
  ∃ n, ∀ calls ≥ n, b.exprIn calls node c = some (e, c')

section Expressions

variable {b : Binder} {c : BindContext}

/-- At the limit an expression is reported; elsewhere it is counted while its node is bound. -/
theorem exprIn_apply (b : Binder) (calls : Nat) (node : NodeRef) (c : BindContext) :
    b.exprIn (calls + 1) node c =
      if b.options.maxDepth ≤ c.depth then
        some (.failure node,
          c.after (c.state.tell Issue.nestedTooDeeply.code (b.arena.span node) []) false)
      else (b.nodeIn (b.exprIn calls) node { c with depth := c.depth + 1 }).map fun (e, c') =>
        (e, { c' with depth := c'.depth - 1 }) := by
  show (if b.options.maxDepth ≤ c.depth then _ else _ : ContextM BoundExpr) c = _
  split
  · rfl
  · show (b.nodeIn (b.exprIn calls) node { c with depth := c.depth + 1 }).bind _ = _
    cases b.nodeIn (b.exprIn calls) node { c with depth := c.depth + 1 } <;> rfl

/-- As many calls are enough as depth is left, and one more to report that none is. -/
theorem mirrors_expr {depth calls : Nat} (node : NodeRef)
    (hc : b.options.maxDepth - c.depth = depth) (hd : depth < calls) :
    ∃ e s, Mirrors (b.exprIn calls node) (b.expr depth node) c e s e.asksClone := by
  induction depth generalizing node c calls with
  | zero =>
    obtain ⟨calls, rfl⟩ := Nat.exists_eq_add_of_lt hd
    refine ⟨.failure node, _, rfl, ?_⟩
    rw [exprIn_apply, if_pos (Nat.le_of_sub_eq_zero hc)]
    rfl
  | succ depth ih =>
    obtain ⟨calls, rfl⟩ := Nat.exists_eq_succ_of_ne_zero (Nat.ne_zero_of_lt hd)
    have hn : MirrorsNested (b.exprIn calls) (b.expr depth) (c.depth + 1) := fun node c' hc' =>
      ih node (by omega) (by omega)
    obtain ⟨e, s, he⟩ := mirrors_node (b := b) (c := { c with depth := c.depth + 1 }) hn node rfl
    refine ⟨e, s, he.plain, ?_⟩
    rw [exprIn_apply, if_neg (by omega), he.within]
    rfl

/-- **From any context an expression in it ends, as an expression down to the depth that is left.**
What changes is the state, and whether the name of clone methods is known. -/
theorem ends_expr (b : Binder) (node : NodeRef) (c : BindContext) :
    let r := b.expr (b.options.maxDepth - c.depth) node c.state
    b.Ends node c r.1 (c.after r.2 r.1.asksClone) := by
  refine ⟨b.options.maxDepth - c.depth + 1, fun calls hcalls => ?_⟩
  obtain ⟨e, s, he⟩ := mirrors_expr (b := b) (c := c) node rfl hcalls
  rw [he.plain]
  exact he.within

/-- **A new binder binds an expression as a whole.** -/
theorem ends_bind (b : Binder) (node : NodeRef) (names : NameTable) (s : BindState) :
    b.Ends node { names, state := s } (b.bind node s).1
      { names := if (b.bind node s).1.asksClone then names.insert cloneName else names
        state := (b.bind node s).2 } :=
  b.ends_expr node _

end Expressions

end Binder

end UpdateExpr
