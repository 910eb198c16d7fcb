import UpdateExpr.Proofs.Bound.Assembly

/-!
# Errors do not cascade

What goes wrong is said once. Whatever is bound around an expression of the error type has the error
type again and reports nothing of its own: no member is looked up behind it, no method is looked for
that copies it, and its value is assigned to anything. An update around it still binds the values
that its list writes, since these stand for themselves, but takes them as they are. So the state in
the end is that which the inner expression left, with these values bound after it.

## Main definitions

* `Binder.operand`, `Binder.entryValue`: an expression that is read, and the value that an entry
  of a list writes
* `Arena.Outward`: one node is reached from another, outward through receivers and parentheses

## Main results

* `Binder.memberNode_of_error`, `Binder.callNode_of_error`, `Binder.update_of_error`,
  `Binder.assign_of_error`: one rule around an expression of the error type
* `Binder.expr_of_outward`: any number of nodes around an expression of the error type
* `Binder.error_reported_once`: what is bound around an expression of the error type reports nothing
-/

namespace UpdateExpr

/-- One node is reached from another, outward through receivers and parentheses, in a number of
steps. Each update on the way is listed, by the number of steps inside of it and the nodes of its
list. -/
inductive Arena.Outward (a : Arena) (inner : NodeRef) :
    NodeRef → Nat → List (Nat × List NodeRef) → Prop
  | refl : Outward a inner inner 0 []
  | access {node target nameNode n lists} (h : a.HasShape node (.access target nameNode))
    (ho : Outward a inner target n lists) : Outward a inner node (n + 1) lists
  | call {node place target nameNode n lists} (h : a.HasShape node (.call place))
    (hp : a.shape? place = some (.access target nameNode)) (ho : Outward a inner target n lists) :
    Outward a inner node (n + 1) lists
  | paren {node target n lists} (h : a.HasShape node (.paren target))
    (ho : Outward a inner target n lists) : Outward a inner node (n + 1) lists
  | update {node receiver nodes list n lists} (h : a.HasShape node (.update receiver nodes list))
    (ho : Outward a inner receiver n lists) :
    Outward a inner node (n + 1) (lists ++ [(n, nodes)])

namespace Binder

open BindState

variable {b : Binder} {nested : NodeRef → BindM BoundExpr}
  {node target nameNode place inner receiverNode : NodeRef} {nodes : List NodeRef}
  {list : ListSpan} {e r copy right v : BoundExpr} {vs : List BoundExpr} {ty : TypeId}
  {invoked : Bool} {depth : Nat} {s s' s₁ s₂ : BindState}

/-- An expression that is bound and read. -/
abbrev operand (b : Binder) (nested : NodeRef → BindM BoundExpr) (node : NodeRef) :
    BindM BoundExpr :=
  nested node >>= b.readable

/-- The value that an entry of a list writes, bound and read. A node that is no initializer writes
none. -/
def entryValue (b : Binder) (nested : NodeRef → BindM BoundExpr) (node : NodeRef) :
    BindM BoundExpr :=
  match b.arena.shape? node with
  | some (.initializer _ valueNode) => b.operand nested valueNode
  | _ => pure (.failure node)

/-! ## Members and calls -/

theorem member_of_error (hr : r.ty? = some .error) (node : NodeRef) (name : String) (arity : Nat)
    (s : BindState) :
    b.member node r name arity invoked s = (.failure node [] [r], s) := by
  rw [member, hr]
  rfl

/-- A member of an expression of the error type is not looked up. -/
theorem memberNode_of_error (h : b.arena.shape? node = some (.access target nameNode))
    (ho : b.operand nested target s = (r, s₁)) (hr : r.ty? = some .error) :
    b.memberNode nested node invoked s = (.failure node [] [r], s₁) := by
  rw [memberNode_apply h ho, member_of_error hr]
  split <;> rfl

/-- A call of such a member fails in silence, too. -/
theorem callNode_of_error (h : b.arena.shape? place = some (.access target nameNode))
    (ho : b.operand nested target s = (r, s₁)) (hr : r.ty? = some .error) :
    b.callNode nested node place s = (.failure node [] [.failure place [] [r]], s₁) := by
  rw [callNode, bind_apply, memberNode_of_error h ho hr]
  rfl

/-! ## Assignments -/

/-- A value of the error type converts to any type without a step. -/
theorem convert_of_error (hr : right.ty? = some .error) (hn : right.isNull = false)
    (ty : TypeId) (s : BindState) : b.convert right ty s = (right, s) := by
  have hc : b.conversionOf right ty s = ((.identity, false), s) := by
    simp only [conversionOf, hn, hr]
    rfl
  rw [convert, bind_apply, hc]
  simp only [if_true, pure_apply, BoundExpr.addErrors_false]

theorem fit_of_error (hr : right.ty? = some .error) (hn : right.isNull = false)
    (left : BoundExpr) (s : BindState) : b.fit left right s = (right, s) := by
  unfold fit
  split
  · rfl
  · cases left.ty? with
    | none => rfl
    | some ty =>
      show (if ty.isError then pure right else b.convert right ty) s = (right, s)
      split
      · rfl
      · exact convert_of_error hr hn ty s

/-- A value of the error type is assigned to any target as it is. -/
theorem assign_of_error (hr : right.ty? = some .error) (hn : right.isNull = false)
    (node : NodeRef) (left : BoundExpr) (s : BindState) :
    b.assign node left right s =
      (.assignment ⟨node, left.ty?, left.hasErrors || right.hasErrors⟩ left right, s) := by
  rw [assign, bind_apply, fit_of_error hr hn]
  rfl

/-! ## What has a type -/

/-- An expression that is neither `null` nor a group of methods. -/
def IsPlain (e : BoundExpr) : Prop :=
  e.isNull = false ∧ ∀ info receiver methods, e ≠ .methodGroup info receiver methods

theorem MemberRun.isPlain {name : String} {arity : Nat}
    (h : b.MemberRun nameNode r name arity invoked s e s') (ht : e.ty? = some ty)
    (node : NodeRef) : IsPlain (e.setNode node) := by
  cases h with
  | found _ _ _ _ =>
    unfold access at ht ⊢
    split at ht
    · cases ht
    · split at ht
      · exact ⟨rfl, nofun⟩
      · cases ht
      · exact ⟨rfl, nofun⟩
      · exact ⟨rfl, nofun⟩
  | _ => exact ⟨rfl, nofun⟩

theorem AccessRun.isPlain (h : b.AccessRun nested node invoked s e s') (ht : e.ty? = some ty) :
    IsPlain e := by
  cases h with
  | other _ | nameless _ _ _ => exact ⟨rfl, nofun⟩
  | named _ _ _ hm => exact hm.isPlain ((BoundExpr.ty?_setNode _ _).symm.trans ht) node

/-- **What has been bound with a type is a plain expression**: neither `null` nor a group of
methods. -/
theorem isPlain_expr (h : b.expr depth node s = (e, s')) (ht : e.ty? = some ty) : IsPlain e := by
  induction depth generalizing node s e s' with
  | zero =>
    obtain ⟨rfl, rfl⟩ := Prod.mk.inj h
    exact ⟨rfl, nofun⟩
  | succ depth ih =>
    cases node_run h with
    | lacking _ | stray _ _ _ | unknown _ | truth _ | localVar _ => exact ⟨rfl, nofun⟩
    | null => cases ht
    | @literal value _ _ _ => cases value <;> exact ⟨rfl, nofun⟩
    | access _ ha => exact ha.isPlain ht
    | call _ hc =>
      obtain ⟨_, hi⟩ := hc
      cases hi <;> exact ⟨rfl, nofun⟩
    | paren _ hn => exact ih hn ht
    | update _ hu => cases hu <;> exact ⟨rfl, nofun⟩

/-- A plain expression is read as it is. -/
theorem IsPlain.readable (h : IsPlain e) (s : BindState) : b.readable e s = (e, s) := by
  cases e with
  | methodGroup info receiver methods => exact absurd rfl (h.2 info receiver methods)
  | _ => rfl

theorem operand_of_expr (h : b.expr depth node s = (e, s')) (ht : e.ty? = some ty) :
    b.operand (b.expr depth) node s = (e, s') := by
  rw [operand, bind_apply, h]
  exact (isPlain_expr h ht).readable s'

/-- A value that is read is not `null` if it has a type. -/
theorem isNull_operand (h : b.operand (b.expr depth) node s = (e, s')) (ht : e.ty? = some ty) :
    e.isNull = false := by
  obtain ⟨hn, hr⟩ := operand_run h
  cases hr with
  | value _ => exact (isPlain_expr hn ht).1
  | group _ _ => rfl

/-! ## Updates -/

section Updates

/-- An entry for a copy of the error type sets no member and keeps its value as it is read. -/
theorem initializer_of_error (hc : copy.ty? = some .error)
    (h : b.entryValue nested node s = (v, s')) :
    ∃ failed, b.initializer nested copy node s = (⟨none, v, failed⟩, s') := by
  by_cases hs : ∃ nameNode valueNode, b.arena.shape? node = some (.initializer nameNode valueNode)
  · obtain ⟨nameNode, valueNode, hs⟩ := hs
    simp only [entryValue, hs, operand, bind_apply] at h
    simp only [initializer, hs]
    split
    · exact ⟨v.hasErrors, by simp only [bind_apply, h, pure_apply]⟩
    · have htarget : ∀ s, b.assignable true (.failure nameNode [] [copy]) s =
          (.failure nameNode [] [copy], s) := fun _ => rfl
      have hfit : ∀ s, b.fit (.failure nameNode [] [copy]) v s = (v, s) := fun _ => rfl
      simp only [bind_apply, member_of_error hc, htarget, h, hfit, pure_apply]
      exact ⟨true, rfl⟩
  · simp only [not_exists] at hs
    have hvalue : b.entryValue nested node = pure (.failure node) := by
      unfold entryValue
      split
      · next hs' => exact absurd hs' (hs _ _)
      · rfl
    have hinit : b.initializer nested copy node = pure ⟨none, .failure node, true⟩ := by
      unfold initializer
      split
      · next hs' => exact absurd hs' (hs _ _)
      · rfl
    rw [hvalue] at h
    obtain ⟨rfl, rfl⟩ := Prod.mk.inj h
    exact ⟨true, congrFun hinit s⟩

theorem initializers_of_error (hc : copy.ty? = some .error)
    (h : nodes.mapM (b.entryValue nested) s = (vs, s')) :
    ∃ inits, b.initializers nested copy nodes s = (inits, s') ∧
      inits.map (fun i => (i.member?, i.value)) = vs.map (none, ·) := by
  induction nodes generalizing s vs with
  | nil =>
    obtain ⟨rfl, rfl⟩ := Prod.mk.inj h
    exact ⟨[], rfl, rfl⟩
  | cons node rest ih =>
    rcases hv : b.entryValue nested node s with ⟨v, s₁⟩
    rcases hr : rest.mapM (b.entryValue nested) s₁ with ⟨others, s₂⟩
    simp only [List.mapM_cons, bind_apply, hv, hr, pure_apply] at h
    obtain ⟨rfl, rfl⟩ := Prod.mk.inj h
    obtain ⟨failed, hi⟩ := initializer_of_error hc hv
    obtain ⟨inits, his, hmap⟩ := ih hr
    refine ⟨⟨none, v, failed⟩ :: inits, ?_, by simp [hmap]⟩
    simp only [initializers, bind_apply, hi, his, pure_apply]

/-- What has the error type is a value of that type. -/
theorem receiver_of_error (hr : r.ty? = some .error) :
    r.lacksValue = false ∧ r.receiverType = .error := by
  have hne : TypeId.error ≠ .void := by decide
  exact ⟨BoundExpr.lacksValue_of_ne_void hr hne, BoundExpr.receiverType_of_ne_void hr hne⟩

/-- **An update of what has the error type, or is no value, binds the values of its list and no
more.** That the receiver is no value is reported before them. -/
theorem update_of_error (h : b.arena.shape? node = some (.update receiverNode nodes list))
    (ho : b.operand nested receiverNode s = (r, s₁)) (hr : r.receiverType = .error)
    (hv : nodes.mapM (b.entryValue nested) (s₁.tellIf r.lacksValue
      Issue.invalidUpdateReceiver.code (b.arena.span receiverNode) []) = (vs, s₂)) :
    ∃ failed, b.update nested node s =
      (.update ⟨node, some .error, failed⟩ (r.addErrors r.lacksValue) none (vs.map (none, ·))
        failed, s₂) := by
  have hcopy : (BoundExpr.placeholder ⟨receiverNode, some .error, false⟩).ty? = some .error := rfl
  obtain ⟨inits, hi, hmap⟩ := initializers_of_error hcopy hv
  have hclone : ∀ s, b.chooseClone receiverNode .error s = ({}, s) := fun _ => rfl
  simp only [update, h, bind_apply, receiver_eq ho, hr, hclone, Option.map_none, Option.getD_none,
    hi, hmap, pure_apply]
  exact ⟨_, rfl⟩

/-- An update of what has the error type reports nothing of its own. -/
theorem update_of_error_receiver
    (h : b.arena.shape? node = some (.update receiverNode nodes list))
    (ho : b.operand nested receiverNode s = (r, s₁)) (hr : r.ty? = some .error)
    (hv : nodes.mapM (b.entryValue nested) s₁ = (vs, s₂)) :
    ∃ failed, b.update nested node s =
      (.update ⟨node, some .error, failed⟩ r none (vs.map (none, ·)) failed, s₂) := by
  obtain ⟨hvalue, htype⟩ := receiver_of_error hr
  obtain ⟨failed, hu⟩ := update_of_error h ho htype (by rw [hvalue]; exact hv)
  rw [hvalue, BoundExpr.addErrors_false] at hu
  exact ⟨failed, hu⟩

end Updates

/-! ## Nodes -/

section Nodes

/-- **Any number of nodes around an expression of the error type report nothing of their own**:
behind its diagnostics come those of the values that the updates around it write, from the inside
out, and nothing else. Without updates there are none. -/
theorem expr_of_outward {n : Nat} {lists : List (Nat × List NodeRef)}
    (ho : b.arena.Outward inner node n lists) (h : b.expr depth inner s = (e, s₁))
    (he : e.ty? = some .error) :
    ∃ e', b.expr (depth + n) node s =
        (e', (lists.mapM (fun l => l.2.mapM (b.entryValue (b.expr (depth + l.1)))) s₁).2) ∧
      e'.ty? = some .error := by
  induction ho with
  | refl => exact ⟨e, h, he⟩
  | @access node _ _ _ _ h _ ih =>
    obtain ⟨r, hr, hrt⟩ := ih
    refine ⟨.failure node [] [r], ?_, rfl⟩
    rw [← Nat.add_assoc, expr, node_access h,
      memberNode_of_error h.1 (operand_of_expr hr hrt) hrt]
  | @call node place _ _ _ _ h hp _ ih =>
    obtain ⟨r, hr, hrt⟩ := ih
    refine ⟨.failure node [] [.failure place [] [r]], ?_, rfl⟩
    rw [← Nat.add_assoc, expr, node_call h, callNode_of_error hp (operand_of_expr hr hrt) hrt]
  | paren h _ ih =>
    obtain ⟨r, hr, hrt⟩ := ih
    refine ⟨r, ?_, hrt⟩
    rw [← Nat.add_assoc, expr, node_paren h, hr]
  | @update node _ nodes _ n lists h _ ih =>
    obtain ⟨r, hr, hrt⟩ := ih
    rcases hv : nodes.mapM (b.entryValue (b.expr (depth + n)))
      (lists.mapM (fun l => l.2.mapM (b.entryValue (b.expr (depth + l.1)))) s₁).2 with ⟨vs, s₂⟩
    obtain ⟨failed, hu⟩ := update_of_error_receiver h.1 (operand_of_expr hr hrt) hrt hv
    refine ⟨.update ⟨node, some .error, failed⟩ r none (vs.map (none, ·)) failed, ?_, rfl⟩
    rw [← Nat.add_assoc, expr, node_update h, hu]
    simp only [List.mapM_append, List.mapM_cons, List.mapM_nil, bind_apply, pure_apply, hv]

/-- **Errors do not cascade.** Where the receiver of a member, of a call of a member or of an update
is read with the error type, or an expression in parentheses has it, the node around it leaves the
state that the receiver left: not a diagnostic is added, and not a type. An update has its values
bound after that, in order, and takes each as it is, for no member; if its receiver is no value at
all, this is reported before them. The result has the error type, and an update has no clone. A
value of the error type that is assigned leaves the state as it is, whatever the target is; only the
literal `null` would be asked for a conversion of its own, and no bound `null` has the error type.
So it goes on outward, through any number of members, calls, parentheses and updates: these leave
the state that the expression of the error type left, with the values of the updates bound after
it. -/
theorem error_reported_once (b : Binder) (depth : Nat) (s : BindState) :
    (∀ node target nameNode r s₁, b.arena.HasShape node (.access target nameNode) →
      b.operand (b.expr depth) target s = (r, s₁) → r.ty? = some .error →
      b.expr (depth + 1) node s = (.failure node [] [r], s₁)) ∧
    (∀ node place target nameNode r s₁, b.arena.HasShape node (.call place) →
      b.arena.shape? place = some (.access target nameNode) →
      b.operand (b.expr depth) target s = (r, s₁) → r.ty? = some .error →
      b.expr (depth + 1) node s = (.failure node [] [.failure place [] [r]], s₁)) ∧
    (∀ node inner, b.arena.HasShape node (.paren inner) →
      b.expr (depth + 1) node s = b.expr depth inner s) ∧
    (∀ node receiverNode nodes list r s₁ vs s₂,
      b.arena.HasShape node (.update receiverNode nodes list) →
      b.operand (b.expr depth) receiverNode s = (r, s₁) → r.ty? = some .error →
      nodes.mapM (b.entryValue (b.expr depth)) s₁ = (vs, s₂) →
      ∃ failed, b.expr (depth + 1) node s =
        (.update ⟨node, some .error, failed⟩ r none (vs.map (none, ·)) failed, s₂)) ∧
    (∀ node receiverNode nodes list r s₁ vs s₂,
      b.arena.HasShape node (.update receiverNode nodes list) →
      b.operand (b.expr depth) receiverNode s = (r, s₁) → r.ty? = none ∨ r.ty? = some .void →
      nodes.mapM (b.entryValue (b.expr depth))
        (s₁.tell Issue.invalidUpdateReceiver.code (b.arena.span receiverNode) []) = (vs, s₂) →
      ∃ failed, b.expr (depth + 1) node s =
        (.update ⟨node, some .error, failed⟩ (r.addErrors true) none (vs.map (none, ·)) failed,
          s₂)) ∧
    (∀ node left right s₁, right.ty? = some .error → right.isNull = false →
      b.assign node left right s₁ =
        (.assignment ⟨node, left.ty?, left.hasErrors || right.hasErrors⟩ left right, s₁)) ∧
    (∀ node right s₁, b.operand (b.expr depth) node s = (right, s₁) → right.ty? = some .error →
      right.isNull = false) ∧
    (∀ inner node n lists e s₁, b.arena.Outward inner node n lists →
      b.expr depth inner s = (e, s₁) → e.ty? = some .error →
      ∃ e', b.expr (depth + n) node s =
          (e', (lists.mapM (fun l => l.2.mapM (b.entryValue (b.expr (depth + l.1)))) s₁).2) ∧
        e'.ty? = some .error) := by
  refine ⟨?_, ?_, ?_, ?_, ?_, ?_, ?_, ?_⟩
  · intro node target nameNode r s₁ h ho hr
    rw [expr, node_access h, memberNode_of_error h.1 ho hr]
  · intro node place target nameNode r s₁ h hp ho hr
    rw [expr, node_call h, callNode_of_error hp ho hr]
  · intro node inner h
    rw [expr, node_paren h]
  · intro node receiverNode nodes list r s₁ vs s₂ h ho hr hv
    obtain ⟨failed, hu⟩ := update_of_error_receiver h.1 ho hr hv
    exact ⟨failed, by rw [expr, node_update h, hu]⟩
  · intro node receiverNode nodes list r s₁ vs s₂ h ho hr hv
    have hvalue : r.lacksValue = true := by
      rcases hr with hr | hr <;> rw [BoundExpr.lacksValue, hr] <;> rfl
    obtain ⟨failed, hu⟩ := update_of_error h.1 ho (BoundExpr.receiverType_of_lacksValue hvalue)
      (by rw [hvalue]; exact hv)
    rw [hvalue] at hu
    exact ⟨failed, by rw [expr, node_update h, hu]⟩
  · exact fun node left right s₁ hr hn => assign_of_error hr hn node left s₁
  · exact fun node right s₁ ho hr => isNull_operand ho hr
  · exact fun inner node n lists e s₁ ho h he => expr_of_outward ho h he

/-- A member behind an unknown name, which is updated: the unknown names are reported in order, and
nothing else. -/
theorem error_reported_once_of_unknown :
    ∃ e s', (copyBinder "u.X with { X = v, w }").expr 3 (some 8) copyState = (e, s') ∧
      e.ty? = some .error ∧ s'.bag.entries.map (·.code) =
        [Issue.unknownName.code, Issue.unknownName.code, Issue.unknownName.code] := by
  have hshape : (copyBinder "u.X with { X = v, w }").arena.HasShape (some 8)
      (.update (some 2) [some 5, some 7] ⟨⟨10, 20⟩, false⟩) := by
    decide +kernel
  obtain ⟨-, -, -, hupdate, -⟩ :=
    error_reported_once (copyBinder "u.X with { X = v, w }") 2 copyState
  obtain ⟨failed, h⟩ := hupdate _ _ _ _ _ _ _ _ hshape rfl (by decide +kernel) rfl
  exact ⟨_, _, h, rfl, by decide +kernel⟩

end Nodes

end Binder

end UpdateExpr
