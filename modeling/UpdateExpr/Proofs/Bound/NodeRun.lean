import UpdateExpr.Proofs.Bound.UseRun

/-!
# Runs of the rules for updates and nodes

The outcomes of the rules for the parts of an update, and of the rule for one node.

## Main definitions

* `Binder.CloneRun`, `Binder.ReceiverRun`, `Binder.InitializerRun`, `Binder.UpdateRun`: updates
* `Binder.NodeRun`: the outcomes of the rule for one node

## Main results

* `Binder.clone_run`: a clone method that is in doubt has a diagnostic that says so
* `Binder.node_run`: a node is bound in one of these ways
* `Binder.memberNode_apply`: a member is looked up behind what is read
* `Binder.node_access`, `Binder.node_call`, `Binder.node_paren`, `Binder.node_update`: what has
  parts is bound by the rule for its shape
-/

namespace UpdateExpr

/-- A node that is there, of a shape. -/
def Arena.HasShape (a : Arena) (r : NodeRef) (shape : NodeShape) : Prop :=
  a.shape? r = some shape ∧ ∀ n ∈ a.get? r, n.missing = false

instance (a : Arena) (r : NodeRef) (shape : NodeShape) : Decidable (a.HasShape r shape) :=
  inferInstanceAs (Decidable (_ ∧ _))

theorem Arena.HasShape.get?_eq {a : Arena} {r : NodeRef} {shape : NodeShape}
    (h : a.HasShape r shape) : ∃ span, a.get? r = some ⟨shape, span, false⟩ := by
  obtain ⟨⟨shape', span, missing⟩, hn, rfl⟩ := Option.map_eq_some_iff.1 h.1
  obtain rfl : missing = false := h.2 _ hn
  exact ⟨span, hn⟩

theorem Arena.HasShape.of_get? {a : Arena} {r : NodeRef} {shape : NodeShape} {span : Span}
    (h : a.get? r = some ⟨shape, span, false⟩) : a.HasShape r shape := by
  refine ⟨by rw [Arena.shape?, h]; rfl, fun n hn => ?_⟩
  rw [h] at hn
  cases hn
  rfl

namespace Binder

variable {b : Binder}

/-! ## Updates -/

section Updates

variable {nested : NodeRef → BindM BoundExpr} {node : NodeRef} {e copy : BoundExpr}
  {receiver : TypeId} {choice : CloneChoice} {init : BoundInitializer} {s s' : BindState}

/-- What is reported where a clone method is in doubt. -/
def cloneIssues : List Issue :=
  [.ambiguousClone, .cloneReturnType]

/-- A clone method is chosen for a type of receivers. The choice is only doubtful if a diagnostic
says so. -/
inductive CloneRun (b : Binder) (receiver : TypeId) (s : BindState) :
    CloneChoice → BindState → Prop
  | faulty (h : receiver = .error) : CloneRun b receiver s {} s
  | absent (types : TypeTable) (span : Span) (args : List String) :
    CloneRun b receiver s { failed := true }
      ((s.withTypes types).tell Issue.noCloneMethod.code span args)
  | chosen {l q m others q'} (h : receiver ≠ .error)
    (hl : b.symbols.lookup receiver (b.query cloneName 0 true) { types := s.types } = (l, q))
    (hv : l.isViable = true) (hp : l.parameterless = m :: others)
    (hd : b.symbols.derivesFrom .ignoreNull receiver m.ty { types := q.types } = (true, q')) :
    CloneRun b receiver s { method? := some m } (s.withTypes q'.types)
  | doubtful {m s'} (d : Diagnostic) (ds : List Diagnostic)
    (hf : s'.bag.file = s.bag.file) (he : s'.bag.entries = s.bag.entries ++ d :: ds)
    (hi : ∀ d' ∈ d :: ds, ∃ issue ∈ cloneIssues, d'.code = issue.code) :
    CloneRun b receiver s { method? := some m, failed := true } s'

/-- Whether the choice is clear is answered with `true`, or with `false` and a diagnostic. -/
theorem checkCloneChoice_apply (node : NodeRef) (receiver : TypeId) (m : Candidate)
    (others : List Candidate) (s : BindState) :
    b.checkCloneChoice node receiver m others s = (true, s) ∨
      ∃ span args, b.checkCloneChoice node receiver m others s =
        (false, s.tell Issue.ambiguousClone.code span args) := by
  unfold checkCloneChoice
  cases b.options.reportAmbiguousClone with
  | false => exact .inl rfl
  | true =>
    cases others with
    | nil => exact .inl rfl
    | cons other others => exact .inr ⟨_, _, rfl⟩

/-- Whether the type of the clone fits is answered with `true`, or with `false` and a diagnostic. -/
theorem checkCloneType_apply (node : NodeRef) (receiver returned : TypeId) (s : BindState) :
    (∃ q, b.symbols.derivesFrom .ignoreNull receiver returned { types := s.types } = (true, q) ∧
      b.checkCloneType node receiver returned s = (true, s.withTypes q.types)) ∨
    ∃ types span args, b.checkCloneType node receiver returned s =
        (false, (s.withTypes types).tell Issue.cloneReturnType.code span args) := by
  rcases hd : b.symbols.derivesFrom .ignoreNull receiver returned { types := s.types } with ⟨d, q⟩
  simp only [checkCloneType, bind_apply, ask_apply, hd]
  cases d with
  | true => exact .inl ⟨q, rfl, rfl⟩
  | false => exact .inr ⟨_, _, _, rfl⟩

theorem clone_run (h : b.chooseClone node receiver s = (choice, s')) :
    b.CloneRun receiver s choice s' := by
  unfold chooseClone at h
  cases he : receiver.isError with
  | true =>
    rw [he, if_pos rfl] at h
    obtain ⟨rfl, rfl⟩ := Prod.mk.inj h
    exact .faulty (eq_of_beq he)
  | false =>
    have he' : receiver ≠ .error := by simpa [TypeId.isError] using he
    rcases hl : b.symbols.lookup receiver (b.query cloneName 0 true) { types := s.types }
      with ⟨l, q⟩
    have hl' := hl
    unfold query at hl'
    simp only [he, Bool.false_eq_true, if_false, bind_apply, ask_apply, hl'] at h
    cases hp : if l.isViable then l.parameterless else [] with
    | nil =>
      simp only [hp, bind_apply, typeName_apply, report_apply, pure_apply] at h
      obtain ⟨rfl, rfl⟩ := Prod.mk.inj h
      exact .absent _ _ _
    | cons m others =>
      simp only [hp, bind_apply, pure_apply] at h
      have hv : l.isViable = true := by
        cases hv : l.isViable with
        | true => rfl
        | false =>
          rw [hv, if_neg Bool.false_ne_true] at hp
          cases hp
      rw [if_pos hv] at hp
      rcases checkCloneChoice_apply (b := b) node receiver m others (s.withTypes q.types) with
        hc | ⟨span, args, hc⟩
      · rw [hc] at h
        rcases checkCloneType_apply (b := b) node receiver m.ty (s.withTypes q.types) with
          ⟨q', hd, ht⟩ | ⟨types, span, args, ht⟩
        · rw [ht] at h
          obtain ⟨rfl, rfl⟩ := Prod.mk.inj h
          exact .chosen he' hl hv hp hd
        · rw [ht] at h
          obtain ⟨rfl, rfl⟩ := Prod.mk.inj h
          refine .doubtful _ [] rfl rfl (List.forall_mem_singleton.2 ?_)
          exact ⟨.cloneReturnType, by simp [cloneIssues], rfl⟩
      · rw [hc] at h
        have hclear : ∃ issue ∈ cloneIssues, Issue.ambiguousClone.code = issue.code :=
          ⟨.ambiguousClone, by simp [cloneIssues], rfl⟩
        rcases checkCloneType_apply (b := b) node receiver m.ty
          ((s.withTypes q.types).tell Issue.ambiguousClone.code span args) with
          ⟨q', hd, ht⟩ | ⟨types, span', args', ht⟩
        · rw [ht] at h
          obtain ⟨rfl, rfl⟩ := Prod.mk.inj h
          exact .doubtful _ [] rfl rfl (List.forall_mem_singleton.2 hclear)
        · rw [ht] at h
          obtain ⟨rfl, rfl⟩ := Prod.mk.inj h
          refine .doubtful _ _ rfl (List.append_assoc _ _ _) ?_
          refine List.forall_mem_cons.2 ⟨hclear, List.forall_mem_singleton.2 ?_⟩
          exact ⟨.cloneReturnType, by simp [cloneIssues], rfl⟩

/-- The receiver of an update is bound. -/
inductive ReceiverRun (b : Binder) (nested : NodeRef → BindM BoundExpr) (node : NodeRef)
    (s : BindState) : BoundExpr → TypeId → BindState → Prop
  | typed {e ty s'} (ho : b.OperandRun nested node s e s') (ht : e.ty? = some ty)
    (hv : ty ≠ .void) : ReceiverRun b nested node s e ty s'
  | refused {e s₁} (ho : b.OperandRun nested node s e s₁) :
    ReceiverRun b nested node s (e.addErrors true) .error
      (s₁.tell Issue.invalidUpdateReceiver.code (b.arena.span node) [])

theorem receiver_run {ty : TypeId} (h : b.receiver nested node s = ((e, ty), s')) :
    b.ReceiverRun nested node s e ty s' := by
  rcases hr : (nested node >>= b.readable) s with ⟨r, s₁⟩
  have ho := operand_run hr
  rw [bind_apply] at hr
  simp only [Binder.receiver, bind_apply, hr] at h
  cases ht : r.ty?.filter (· ≠ .void) with
  | none =>
    simp only [ht, bind_apply, report_apply, pure_apply] at h
    obtain ⟨hp, rfl⟩ := Prod.mk.inj h
    obtain ⟨rfl, rfl⟩ := Prod.mk.inj hp
    exact .refused ho
  | some t =>
    simp only [ht, pure_apply] at h
    obtain ⟨hp, rfl⟩ := Prod.mk.inj h
    obtain ⟨rfl, rfl⟩ := Prod.mk.inj hp
    obtain ⟨ht, hv⟩ := Option.filter_eq_some_iff.1 ht
    exact .typed ho ht (of_decide_eq_true hv)

/-- An initializer is bound. -/
inductive InitializerRun (b : Binder) (nested : NodeRef → BindM BoundExpr) (copy : BoundExpr)
    (node : NodeRef) (s : BindState) : BoundInitializer → BindState → Prop
  | other (h : ∀ nameNode valueNode,
      b.arena.shape? node ≠ some (.initializer nameNode valueNode)) :
    InitializerRun b nested copy node s ⟨none, .failure node, true⟩ s
  | bare {nameNode valueNode v s'}
    (h : b.arena.shape? node = some (.initializer nameNode valueNode))
    (hn : b.arena.name nameNode = "") (ho : b.OperandRun nested valueNode s v s') :
    InitializerRun b nested copy node s ⟨none, v, v.hasErrors⟩ s'
  | named {nameNode valueNode t s₁ t' s₂ v s₃ v' s'}
    (h : b.arena.shape? node = some (.initializer nameNode valueNode))
    (hn : b.arena.name nameNode ≠ "")
    (hm : b.MemberRun nameNode copy (b.arena.name nameNode) 0 false s t s₁)
    (ha : b.AssignRun true t s₁ t' s₂) (ho : b.OperandRun nested valueNode s₂ v s₃)
    (hf : b.FitRun t' v s₃ v' s') :
    InitializerRun b nested copy node s ⟨t'.symbol?, v', t'.hasErrors || v'.hasErrors⟩ s'

theorem initializer_run (h : b.initializer nested copy node s = (init, s')) :
    b.InitializerRun nested copy node s init s' := by
  by_cases ha : ∃ nameNode valueNode,
      b.arena.shape? node = some (.initializer nameNode valueNode)
  · obtain ⟨nameNode, valueNode, ha⟩ := ha
    simp only [initializer, ha] at h
    by_cases hn : b.arena.name nameNode = ""
    · rw [if_pos hn] at h
      obtain ⟨rfl, rfl⟩ := Prod.mk.inj h
      exact .bare ha hn (operand_run rfl)
    · rw [if_neg hn] at h
      obtain ⟨rfl, rfl⟩ := Prod.mk.inj h
      exact .named ha hn (member_run rfl) (assign_run rfl) (operand_run rfl) (fit_run rfl)
  · have hf : b.initializer nested copy node = pure ⟨none, .failure node, true⟩ := by
      unfold initializer
      split
      · next nameNode valueNode hs => exact absurd ⟨nameNode, valueNode, hs⟩ ha
      · rfl
    rw [hf] at h
    obtain ⟨rfl, rfl⟩ := Prod.mk.inj h
    exact .other fun nameNode valueNode hs => ha ⟨nameNode, valueNode, hs⟩

/-- Some initializers are bound, one after another. -/
inductive InitializersRun (b : Binder) (nested : NodeRef → BindM BoundExpr) (copy : BoundExpr) :
    List NodeRef → BindState → List BoundInitializer → BindState → Prop
  | nil {s : BindState} : InitializersRun b nested copy [] s [] s
  | cons {node : NodeRef} {rest : List NodeRef} {s s₁ s' : BindState} {init : BoundInitializer}
    {inits : List BoundInitializer} (h : b.InitializerRun nested copy node s init s₁)
    (hr : InitializersRun b nested copy rest s₁ inits s') :
    InitializersRun b nested copy (node :: rest) s (init :: inits) s'

theorem initializers_run {nodes : List NodeRef} {inits : List BoundInitializer}
    (h : b.initializers nested copy nodes s = (inits, s')) :
    b.InitializersRun nested copy nodes s inits s' := by
  induction nodes generalizing s inits with
  | nil =>
    obtain ⟨rfl, rfl⟩ := Prod.mk.inj h
    exact .nil
  | cons node rest ih =>
    obtain ⟨rfl, rfl⟩ := Prod.mk.inj h
    exact .cons (initializer_run rfl) (ih rfl)

/-- An update is bound. -/
inductive UpdateRun (b : Binder) (nested : NodeRef → BindM BoundExpr) (node : NodeRef)
    (s : BindState) : BoundExpr → BindState → Prop
  | other (h : ∀ receiver entries list,
      b.arena.shape? node ≠ some (.update receiver entries list)) :
    UpdateRun b nested node s (.failure node) s
  | intro {receiverNode entries list r ty s₁ clone s₂ inits s' copyTy failed}
    (h : b.arena.shape? node = some (.update receiverNode entries list))
    (hr : b.ReceiverRun nested receiverNode s r ty s₁) (hc : b.CloneRun ty s₁ clone s₂)
    (ht : copyTy = (clone.method?.map (·.ty)).getD ty)
    (hi : b.InitializersRun nested (.placeholder ⟨receiverNode, some copyTy, false⟩) entries s₂
      inits s')
    (hf : failed = (r.hasErrors || clone.failed || inits.any (·.failed))) :
    UpdateRun b nested node s
      (.update ⟨node, some copyTy, failed⟩ r (clone.method?.map (·.member))
        (inits.map fun i => (i.member?, i.value)) failed) s'

theorem update_run (h : b.update nested node s = (e, s')) : b.UpdateRun nested node s e s' := by
  by_cases ha : ∃ receiver entries list,
      b.arena.shape? node = some (.update receiver entries list)
  · obtain ⟨receiver, entries, list, ha⟩ := ha
    simp only [update, ha] at h
    obtain ⟨rfl, rfl⟩ := Prod.mk.inj h
    exact .intro ha (receiver_run rfl) (clone_run rfl) rfl (initializers_run rfl) rfl
  · have hf : b.update nested node = pure (.failure node) := by
      unfold update
      split
      · next receiver entries list hs => exact absurd ⟨receiver, entries, list, hs⟩ ha
      · rfl
    rw [hf] at h
    obtain ⟨rfl, rfl⟩ := Prod.mk.inj h
    exact .other fun receiver entries list hs => ha ⟨receiver, entries, list, hs⟩

end Updates

/-! ## Nodes -/

section Nodes

variable {nested : NodeRef → BindM BoundExpr} {node : NodeRef} {e : BoundExpr} {s s' : BindState}

/-- A node is bound by what it is. -/
inductive NodeRun (b : Binder) (nested : NodeRef → BindM BoundExpr) (node : NodeRef)
    (s : BindState) : BoundExpr → BindState → Prop
  | lacking (h : ∀ n, b.arena.get? node = some n → n.missing = true) :
    NodeRun b nested node s (.failure node) s
  | stray {n} (h : b.arena.get? node = some n) (hm : n.missing = false)
    (hs : (∃ name value, n.shape = .initializer name value) ∨
      ∃ kind, n.shape = .token kind ∧ kind ∉ [.trueKeyword, .falseKeyword, .nullKeyword]) :
    NodeRun b nested node s (.failure node) s
  | truth (value : Bool) :
    NodeRun b nested node s (.literal ⟨node, some Intrinsic.bool.id, false⟩ (.bool value)) s
  | null : NodeRun b nested node s (.literal ⟨node, none, false⟩ .null) s
  | literal {value text flags} (h : b.arena.shape? node = some (.literal value text flags)) :
    NodeRun b nested node s (Binder.literal node value) s
  | localVar {name v} (hv : b.scope.lookup? name = some v) :
    NodeRun b nested node s (.localVar ⟨node, some v.ty, false⟩ v.id) s
  | unknown (name : String) :
    NodeRun b nested node s (.failure node)
      (s.tell Issue.unknownName.code (b.arena.span node) [name])
  | access {target nameNode : NodeRef} {e : BoundExpr} {s' : BindState}
    (hs : b.arena.shape? node = some (.access target nameNode))
    (h : b.AccessRun nested node false s e s') : NodeRun b nested node s e s'
  | call {target : NodeRef} {e : BoundExpr} {s' : BindState}
    (h : b.arena.shape? node = some (.call target))
    (hc : b.CallRun nested node target s e s') : NodeRun b nested node s e s'
  | paren {inner : NodeRef} {e : BoundExpr} {s' : BindState}
    (h : b.arena.shape? node = some (.paren inner))
    (hn : nested inner s = (e, s')) : NodeRun b nested node s e s'
  | update {receiver : NodeRef} {entries : List NodeRef} {list : ListSpan} {e : BoundExpr}
    {s' : BindState} (hs : b.arena.shape? node = some (.update receiver entries list))
    (h : b.UpdateRun nested node s e s') : NodeRun b nested node s e s'

theorem name_run {name : String} (h : b.name node name s = (e, s')) :
    b.NodeRun nested node s e s' := by
  unfold Binder.name at h
  cases hv : b.scope.lookup? name with
  | some v =>
    rw [hv] at h
    obtain ⟨rfl, rfl⟩ := Prod.mk.inj h
    exact .localVar hv
  | none =>
    rw [hv] at h
    obtain ⟨rfl, rfl⟩ := Prod.mk.inj h
    exact .unknown name

/-- **A node is bound in one of these ways.** -/
theorem node_run (h : b.node nested node s = (e, s')) : b.NodeRun nested node s e s' := by
  cases hg : b.arena.get? node with
  | none =>
    simp only [Binder.node, hg] at h
    obtain ⟨rfl, rfl⟩ := Prod.mk.inj h
    exact .lacking (by simp [hg])
  | some n =>
    obtain ⟨shape, span, missing⟩ := n
    cases missing with
    | true =>
      simp only [Binder.node, hg] at h
      obtain ⟨rfl, rfl⟩ := Prod.mk.inj h
      exact .lacking (by simp [hg])
    | false =>
      have hs : b.arena.shape? node = some shape := by simp [Arena.shape?, hg]
      cases shape with
      | token kind =>
        cases kind with
        | identifier =>
          simp only [Binder.node, hg] at h
          exact name_run h
        | trueKeyword | falseKeyword =>
          simp only [Binder.node, hg] at h
          obtain ⟨rfl, rfl⟩ := Prod.mk.inj h
          exact .truth _
        | nullKeyword =>
          simp only [Binder.node, hg] at h
          obtain ⟨rfl, rfl⟩ := Prod.mk.inj h
          exact .null
        | _ =>
          simp only [Binder.node, hg] at h
          obtain ⟨rfl, rfl⟩ := Prod.mk.inj h
          exact .stray hg rfl (.inr ⟨_, rfl, by decide⟩)
      | identifier name =>
        simp only [Binder.node, hg] at h
        exact name_run h
      | literal value text flags =>
        simp only [Binder.node, hg] at h
        obtain ⟨rfl, rfl⟩ := Prod.mk.inj h
        exact .literal hs
      | access target member =>
        simp only [Binder.node, hg] at h
        exact .access hs (access_run h)
      | call target =>
        simp only [Binder.node, hg] at h
        exact .call hs (call_run h)
      | paren inner =>
        simp only [Binder.node, hg] at h
        exact .paren hs h
      | update receiver entries list =>
        simp only [Binder.node, hg] at h
        exact .update hs (update_run h)
      | initializer name value =>
        simp only [Binder.node, hg] at h
        obtain ⟨rfl, rfl⟩ := Prod.mk.inj h
        exact .stray hg rfl (.inl ⟨_, _, rfl⟩)

/-! ### Nodes with parts -/

/-- A member is looked up behind what is read, unless its name is missing. -/
theorem memberNode_apply {target nameNode : NodeRef} {invoked : Bool} {r : BoundExpr}
    {s₁ : BindState} (h : b.arena.shape? node = some (.access target nameNode))
    (ho : (nested target >>= b.readable) s = (r, s₁)) :
    b.memberNode nested node invoked s =
      if b.arena.name nameNode = "" then (.failure node [] [r], s₁)
      else ((b.member nameNode r (b.arena.name nameNode) 0 invoked s₁).1.setNode node,
        (b.member nameNode r (b.arena.name nameNode) 0 invoked s₁).2) := by
  rw [bind_apply] at ho
  simp only [memberNode, h, bind_apply, ho]
  split <;> rfl

theorem node_access {target nameNode : NodeRef}
    (h : b.arena.HasShape node (.access target nameNode)) :
    b.node nested node = b.memberNode nested node false := by
  obtain ⟨span, hn⟩ := h.get?_eq
  simp only [Binder.node, hn]

theorem node_call {target : NodeRef} (h : b.arena.HasShape node (.call target)) :
    b.node nested node = b.callNode nested node target := by
  obtain ⟨span, hn⟩ := h.get?_eq
  simp only [Binder.node, hn]

theorem node_paren {inner : NodeRef} (h : b.arena.HasShape node (.paren inner)) :
    b.node nested node = nested inner := by
  obtain ⟨span, hn⟩ := h.get?_eq
  simp only [Binder.node, hn]

theorem node_update {receiver : NodeRef} {entries : List NodeRef} {list : ListSpan}
    (h : b.arena.HasShape node (.update receiver entries list)) :
    b.node nested node = b.update nested node := by
  obtain ⟨span, hn⟩ := h.get?_eq
  simp only [Binder.node, hn]

end Nodes

end Binder

end UpdateExpr
