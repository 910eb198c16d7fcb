import UpdateExpr.Proofs.Bound.Report

/-!
# Runs of the rules for values and members

What each rule of the binder can do, said once. A run leads from a state to an expression and a
state; for each rule there is a relation with one case for each of its outcomes, and a theorem that
its runs are of one of these cases. Whatever is shown of binding is shown by these cases, and no
rule is opened again.

## Main definitions

* `Binder.ReadRun`, `Binder.AssignRun`, `Binder.ConvertRun`, `Binder.FitRun`: uses of a value
* `Binder.MemberRun`, `Binder.AccessRun`, `Binder.CallRun`: members and calls

## Main results

* `Binder.fit_run`: a value is brought to the type of a target in one of these ways
* `Binder.access_run`, `Binder.call_run`: members and calls are bound in one of these ways
-/

namespace UpdateExpr

namespace Binder

variable {b : Binder}

/-! ## Values -/

section Values

variable {e e' : BoundExpr} {s s' : BindState} {target : TypeId}

/-- An expression is read. -/
inductive ReadRun (b : Binder) (e : BoundExpr) (s : BindState) : BoundExpr → BindState → Prop
  | value (h : ∀ info receiver methods, e ≠ .methodGroup info receiver methods) : ReadRun b e s e s
  | group {info receiver methods} (name : String) (h : e = .methodGroup info receiver methods) :
    ReadRun b e s (.failure info.node e.symbol?.toList [e])
      (s.tell Issue.methodGroupAsValue.code (b.arena.span info.node) [name])

theorem read_run (h : b.readable e s = (e', s')) : b.ReadRun e s e' s' := by
  cases e with
  | methodGroup info receiver methods =>
    cases methods with
    | nil =>
      obtain ⟨rfl, rfl⟩ := Prod.mk.inj h
      exact .group _ rfl
    | cons m methods =>
      obtain ⟨rfl, rfl⟩ := Prod.mk.inj h
      exact .group _ rfl
  | _ =>
    obtain ⟨rfl, rfl⟩ := Prod.mk.inj h
    exact .value nofun

/-- What is reported where an expression cannot be assigned to. -/
def targetIssues : List Issue :=
  [.fieldReadOnly, .propertyReadOnly, .initOnlyProperty, .methodGroupAssigned]

theorem setterObjection?_mem {inInitializer : Bool} {shape : MemberShape} {issue : Issue}
    (h : setterObjection? inInitializer shape = some issue) : issue ∈ targetIssues := by
  unfold setterObjection? at h
  split at h
  · cases h
    decide
  · split at h
    · cases h
    · cases h
      decide
  · cases h
  · cases h
  · cases h

theorem objection?_mem {inInitializer : Bool} {issue : Issue} {m : MemberId}
    (h : b.objection? inInitializer e = some (issue, m)) : issue ∈ targetIssues := by
  unfold objection? at h
  split at h
  · split at h
    · cases h
    · cases h
      decide
  · obtain ⟨i, hi, hp⟩ := Option.map_eq_some_iff.1 h
    obtain ⟨member, -, hs⟩ := Option.bind_eq_some_iff.1 hi
    cases hp
    exact setterObjection?_mem hs
  · obtain ⟨c, -, hp⟩ := Option.map_eq_some_iff.1 h
    cases hp
    decide
  · cases h

/-- An expression is assigned to. -/
inductive AssignRun (b : Binder) (inInitializer : Bool) (e : BoundExpr) (s : BindState) :
    BoundExpr → BindState → Prop
  | faulty (h : e.hasErrors = true) : AssignRun b inInitializer e s e s
  | accepted (h : e.hasErrors = false) (hn : b.objection? inInitializer e = none) :
    AssignRun b inInitializer e s e s
  | refused {issue m} (name : String) (h : e.hasErrors = false)
    (ho : b.objection? inInitializer e = some (issue, m)) :
    AssignRun b inInitializer e s (.failure e.node [m] [e])
      (s.tell issue.code (b.arena.span e.node) [name])

theorem assign_run {inInitializer : Bool} (h : b.assignable inInitializer e s = (e', s')) :
    b.AssignRun inInitializer e s e' s' := by
  unfold assignable at h
  cases he : e.hasErrors with
  | true =>
    rw [he, if_pos rfl] at h
    obtain ⟨rfl, rfl⟩ := Prod.mk.inj h
    exact .faulty he
  | false =>
    rw [he, if_neg Bool.false_ne_true] at h
    cases ho : b.objection? inInitializer e with
    | none =>
      rw [ho] at h
      obtain ⟨rfl, rfl⟩ := Prod.mk.inj h
      exact .accepted he ho
    | some objection =>
      rw [ho] at h
      obtain ⟨rfl, rfl⟩ := Prod.mk.inj h
      exact .refused _ he ho

/-- The conversion of an expression is looked for. -/
inductive ConversionRun (b : Binder) (e : BoundExpr) (target : TypeId) (s : BindState) :
    Conversion → Bool → BindState → Prop
  | null (h : e.isNull = true) : ConversionRun b e target s (.ofNull s.types target) false s
  | typeless (h : e.isNull = false) (ht : e.ty? = none) :
    ConversionRun b e target s .identity false s
  | classified {ty conversion q} (h : e.isNull = false) (ht : e.ty? = some ty)
    (hc : b.symbols.classify ty target { types := s.types } = (conversion, q)) :
    ConversionRun b e target s conversion (!q.notes.isEmpty)
      ((s.withTypes q.types).tellNotes (b.arena.span e.node) q.notes)

theorem conversion_run {conversion : Conversion} {faulty : Bool}
    (h : b.conversionOf e target s = ((conversion, faulty), s')) :
    b.ConversionRun e target s conversion faulty s' := by
  unfold conversionOf at h
  cases hn : e.isNull with
  | true =>
    rw [hn, if_pos rfl] at h
    obtain ⟨hr, rfl⟩ := Prod.mk.inj h
    obtain ⟨rfl, rfl⟩ := Prod.mk.inj hr
    exact .null hn
  | false =>
    rw [hn, if_neg Bool.false_ne_true] at h
    cases ht : e.ty? with
    | none =>
      rw [ht] at h
      obtain ⟨hr, rfl⟩ := Prod.mk.inj h
      obtain ⟨rfl, rfl⟩ := Prod.mk.inj hr
      exact .typeless hn ht
    | some ty =>
      simp only [ht, bind_apply, ask_apply, reportNotes_apply, pure_apply] at h
      obtain ⟨hr, rfl⟩ := Prod.mk.inj h
      obtain ⟨rfl, rfl⟩ := Prod.mk.inj hr
      exact .classified hn ht rfl

/-- What is reported where a value cannot stand where a type is wanted. -/
def conversionIssues : List Issue :=
  [.explicitConversionOnly, .noConversion]

/-- An expression is brought to a type. -/
inductive ConvertRun (b : Binder) (e : BoundExpr) (target : TypeId) (s : BindState) :
    BoundExpr → BindState → Prop
  | same {faulty s₁} (hc : b.ConversionRun e target s .identity faulty s₁) :
    ConvertRun b e target s (e.addErrors faulty) s₁
  | implicit {conversion faulty s₁} (hc : b.ConversionRun e target s conversion faulty s₁)
    (hi : conversion ≠ .identity) (hk : conversion.isImplicit = true) :
    ConvertRun b e target s
      (.conversion ⟨e.node, some target, e.hasErrors || faulty⟩ e conversion) s₁
  | refused {conversion faulty s₁} (issue : Issue) (args : List String)
    (hc : b.ConversionRun e target s conversion faulty s₁) (hk : conversion.isImplicit = false)
    (hi : issue ∈ conversionIssues) :
    ConvertRun b e target s (.conversion ⟨e.node, some target, true⟩ e conversion)
      (s₁.tell issue.code (b.arena.span e.node) args)

/-- A conversion without the mark has an operand without it. -/
theorem ConvertRun.operand_hasErrors (h : b.ConvertRun e target s e' s')
    (hf : e'.hasErrors = false) : e.hasErrors = false := by
  cases h with
  | same _ =>
    rw [BoundExpr.hasErrors_addErrors] at hf
    exact (Bool.or_eq_false_iff.1 hf).1
  | implicit _ _ _ => exact (Bool.or_eq_false_iff.1 hf).1
  | refused _ _ _ _ _ => cases hf

theorem convert_run (h : b.convert e target s = (e', s')) : b.ConvertRun e target s e' s' := by
  rcases hr : b.conversionOf e target s with ⟨⟨conversion, faulty⟩, s₁⟩
  have hc := conversion_run hr
  simp only [convert, bind_apply, hr] at h
  by_cases hi : conversion = .identity
  · rw [if_pos hi] at h
    obtain ⟨rfl, rfl⟩ := Prod.mk.inj h
    subst hi
    exact .same hc
  · rw [if_neg hi] at h
    cases hk : conversion.isImplicit with
    | true =>
      rw [hk, if_pos rfl] at h
      obtain ⟨rfl, rfl⟩ := Prod.mk.inj h
      exact .implicit hc hi hk
    | false =>
      rw [hk, if_neg Bool.false_ne_true] at h
      obtain ⟨rfl, rfl⟩ := Prod.mk.inj h
      refine .refused _ _ hc hk ?_
      split <;> simp [conversionIssues]

/-- A value is brought to the type of the target that gets it. -/
inductive FitRun (b : Binder) (left right : BoundExpr) (s : BindState) :
    BoundExpr → BindState → Prop
  | kept (h : left.hasErrors = true ∨ left.hasUsableType = false) : FitRun b left right s right s
  | converted {ty e s'} (h : left.hasErrors = false) (ht : left.ty? = some ty) (he : ty ≠ .error)
    (hc : b.ConvertRun right ty s e s') : FitRun b left right s e s'

theorem fit_run {left right : BoundExpr} (h : b.fit left right s = (e', s')) :
    b.FitRun left right s e' s' := by
  unfold fit at h
  cases hl : left.hasErrors with
  | true =>
    rw [hl, if_pos rfl] at h
    obtain ⟨rfl, rfl⟩ := Prod.mk.inj h
    exact .kept (.inl hl)
  | false =>
    rw [hl, if_neg Bool.false_ne_true] at h
    cases ht : left.ty? with
    | none =>
      rw [ht] at h
      obtain ⟨rfl, rfl⟩ := Prod.mk.inj h
      exact .kept (.inr (by simp [BoundExpr.hasUsableType, ht]))
    | some ty =>
      cases he : ty.isError with
      | true =>
        simp only [ht, he, if_true, pure_apply] at h
        obtain ⟨rfl, rfl⟩ := Prod.mk.inj h
        exact .kept (.inr (by simp [BoundExpr.hasUsableType, ht, he]))
      | false =>
        simp only [ht, he, Bool.false_eq_true, if_false] at h
        exact .converted hl ht (by simpa [TypeId.isError] using he) (convert_run h)

end Values

/-! ## Members -/

section Members

variable {nested : NodeRef → BindM BoundExpr} {node target : NodeRef} {receiver e : BoundExpr}
  {name : String} {arity : Nat} {invoked : Bool} {s s' : BindState}

@[simp] theorem children_access (node : NodeRef) (receiver : BoundExpr) (faulty : Bool)
    (members : List Candidate) : (b.access node receiver faulty members).children = [receiver] := by
  unfold access
  split
  · rfl
  · split <;> rfl

@[simp] theorem hasErrors_access (node : NodeRef) (receiver : BoundExpr) (faulty : Bool)
    (members : List Candidate) : (b.access node receiver faulty members).hasErrors = faulty := by
  unfold access
  split
  · rfl
  · split <;> rfl

/-- A group of methods holds all members that were found. -/
theorem access_eq_methodGroup {faulty : Bool} {members methods : List Candidate} {info : BoundInfo}
    {r : BoundExpr} (h : b.access node receiver faulty members = .methodGroup info r methods) :
    methods = members := by
  unfold access at h
  split at h
  · cases h
    rfl
  · split at h
    · cases h
    · cases h
      rfl
    · cases h
    · cases h

/-- What a name behind a receiver is looked up by. -/
def query (b : Binder) (name : String) (arity : Nat) (invoked : Bool) : LookupQuery where
  name := name
  arity := arity
  instanceOnly := true
  invocableOnly := invoked
  asking? := b.scope.containing?

/-- What is reported where no member of a name is usable. -/
def lookupIssues : List Issue :=
  [.memberNotFound, .memberInaccessible, .staticMember, .memberNotInvocable]

/-- A name is looked up behind a receiver. -/
inductive MemberRun (b : Binder) (node : NodeRef) (receiver : BoundExpr) (name : String)
    (arity : Nat) (invoked : Bool) (s : BindState) : BoundExpr → BindState → Prop
  | typeless (args : List String) (ht : receiver.ty? = none) :
    MemberRun b node receiver name arity invoked s (.failure node [] [receiver])
      (s.tell Issue.memberNotFound.code (b.arena.span node) args)
  | faulty (ht : receiver.ty? = some .error) :
    MemberRun b node receiver name arity invoked s (.failure node [] [receiver]) s
  | found {ty l q} (ht : receiver.ty? = some ty) (he : ty ≠ .error)
    (hl : b.symbols.lookup ty (b.query name arity invoked) { types := s.types } = (l, q))
    (hv : l.isViable = true) :
    MemberRun b node receiver name arity invoked s
      (b.access node receiver (receiver.hasErrors || !q.notes.isEmpty) l.candidates)
      ((s.withTypes q.types).tellNotes (b.arena.span node) q.notes)
  | missing {ty l q} (issue : Issue) (args : List String) (ht : receiver.ty? = some ty)
    (he : ty ≠ .error)
    (hl : b.symbols.lookup ty (b.query name arity invoked) { types := s.types } = (l, q))
    (hi : issue ∈ lookupIssues) :
    MemberRun b node receiver name arity invoked s
      (.failure node (l.only?.map (·.member)).toList [receiver])
      (((s.withTypes q.types).tellNotes (b.arena.span node) q.notes).tell issue.code
        (b.arena.span node) args)

theorem MemberRun.children_eq
    (h : b.MemberRun node receiver name arity invoked s e s') : e.children = [receiver] := by
  cases h with
  | found _ _ _ _ => exact children_access _ _ _ _
  | _ => rfl

/-- A member without the mark has a receiver without it. -/
theorem MemberRun.receiver_hasErrors
    (h : b.MemberRun node receiver name arity invoked s e s') (hf : e.hasErrors = false) :
    receiver.hasErrors = false := by
  cases h with
  | found ht he hl hv =>
    rw [hasErrors_access] at hf
    exact (Bool.or_eq_false_iff.1 hf).1
  | _ => cases hf

/-- A group of methods that a name behind a receiver stands for has that receiver. -/
theorem MemberRun.of_methodGroup {info : BoundInfo} {methods : List Candidate} {r : BoundExpr}
    (h : b.MemberRun node r name arity invoked s e s')
    (hg : e.setNode target = .methodGroup info receiver methods) :
    r = receiver ∧ ∃ i, e = .methodGroup i receiver methods := by
  have hc := congrArg BoundExpr.children hg
  rw [BoundExpr.setNode, BoundExpr.children_setInfo, h.children_eq] at hc
  refine ⟨List.singleton_inj.1 hc, ?_⟩
  cases e with
  | methodGroup i r' ms =>
    simp only [BoundExpr.setNode, BoundExpr.setInfo, BoundExpr.methodGroup.injEq] at hg
    obtain ⟨-, rfl, rfl⟩ := hg
    exact ⟨i, rfl⟩
  | _ => cases hg

theorem reportLookup_apply (node : NodeRef) (l : Lookup) (receiver : TypeId) (name : String)
    (s : BindState) :
    ∃ issue ∈ lookupIssues, ∃ args, b.reportLookup node l receiver name s =
      ((), s.tell issue.code (b.arena.span node) args) := by
  obtain ⟨verdict, candidates⟩ := l
  cases verdict
  case notInvocable =>
    exact ⟨.memberNotInvocable, by simp [lookupIssues], by cases candidates <;> exact ⟨_, rfl⟩⟩
  case staticMember =>
    exact ⟨.staticMember, by simp [lookupIssues], by cases candidates <;> exact ⟨_, rfl⟩⟩
  case inaccessible =>
    exact ⟨.memberInaccessible, by simp [lookupIssues], by cases candidates <;> exact ⟨_, rfl⟩⟩
  all_goals
    exact ⟨.memberNotFound, by simp [lookupIssues], by cases candidates <;> exact ⟨_, rfl⟩⟩

theorem member_run (h : b.member node receiver name arity invoked s = (e, s')) :
    b.MemberRun node receiver name arity invoked s e s' := by
  unfold member at h
  cases ht : receiver.ty? with
  | none =>
    rw [ht] at h
    obtain ⟨rfl, rfl⟩ := Prod.mk.inj h
    exact .typeless _ ht
  | some ty =>
    cases he : ty.isError with
    | true =>
      simp only [ht, he, if_true, pure_apply] at h
      obtain ⟨rfl, rfl⟩ := Prod.mk.inj h
      exact .faulty (by rw [ht, eq_of_beq he])
    | false =>
      have he' : ty ≠ .error := by simpa [TypeId.isError] using he
      rcases hl : b.symbols.lookup ty (b.query name arity invoked) { types := s.types } with ⟨l, q⟩
      have hl' := hl
      unfold query at hl'
      simp only [ht, he, Bool.false_eq_true, if_false, bind_apply, ask_apply, reportNotes_apply,
        hl'] at h
      cases hv : l.isViable with
      | true =>
        rw [hv, if_pos rfl, pure_apply] at h
        obtain ⟨rfl, rfl⟩ := Prod.mk.inj h
        exact .found ht he' hl hv
      | false =>
        obtain ⟨issue, hi, args, hr⟩ := reportLookup_apply (b := b) node l ty name
          ((s.withTypes q.types).tellNotes (b.arena.span node) q.notes)
        rw [hv, if_neg Bool.false_ne_true, bind_apply, pure_apply, hr] at h
        obtain ⟨rfl, rfl⟩ := Prod.mk.inj h
        exact .missing issue args ht he' hl hi

/-- A target is called without arguments. -/
inductive InvokeRun (b : Binder) (node : NodeRef) (e : BoundExpr) (s : BindState) :
    BoundExpr → BindState → Prop
  | called {info receiver methods m} (h : e = .methodGroup info receiver methods)
    (hm : methods.find? (·.params.isEmpty) = some m) :
    InvokeRun b node e s (.call ⟨node, some m.ty, receiver.hasErrors⟩ receiver m.member) s
  | overloads {info receiver methods} (name : String)
    (h : e = .methodGroup info receiver methods) :
    InvokeRun b node e s (.failure node (methods.head?.map (·.member)).toList [receiver])
      (s.tell Issue.noParameterlessOverload.code (b.arena.span node) [name])
  | other (h : ∀ info receiver methods, e ≠ .methodGroup info receiver methods) :
    InvokeRun b node e s (.failure node e.symbol?.toList [e]) s

theorem invoke_run {e' : BoundExpr} (h : b.invoke node e name s = (e', s')) :
    b.InvokeRun node e s e' s' := by
  cases e with
  | methodGroup info receiver methods =>
    cases hm : methods.find? (·.params.isEmpty) with
    | some m =>
      simp only [invoke, hm, pure_apply] at h
      obtain ⟨rfl, rfl⟩ := Prod.mk.inj h
      exact .called rfl hm
    | none =>
      simp only [invoke, hm, bind_apply, report_apply, pure_apply] at h
      obtain ⟨rfl, rfl⟩ := Prod.mk.inj h
      exact .overloads name rfl
  | _ =>
    obtain ⟨rfl, rfl⟩ := Prod.mk.inj h
    exact .other nofun

/-- An expression is bound by the rule for nested ones, and then read. -/
inductive OperandRun (b : Binder) (nested : NodeRef → BindM BoundExpr) (node : NodeRef)
    (s : BindState) : BoundExpr → BindState → Prop
  | intro {e s₁ e' s'} (hn : nested node s = (e, s₁)) (hr : b.ReadRun e s₁ e' s') :
    OperandRun b nested node s e' s'

theorem operand_run (h : (nested node >>= b.readable) s = (e, s')) :
    b.OperandRun nested node s e s' :=
  .intro rfl (read_run h)

/-- A member of an expression is bound. -/
inductive AccessRun (b : Binder) (nested : NodeRef → BindM BoundExpr) (node : NodeRef)
    (invoked : Bool) (s : BindState) : BoundExpr → BindState → Prop
  | other (h : ∀ target nameNode, b.arena.shape? node ≠ some (.access target nameNode)) :
    AccessRun b nested node invoked s (.failure node) s
  | nameless {target nameNode r s'} (h : b.arena.shape? node = some (.access target nameNode))
    (ho : b.OperandRun nested target s r s') (hn : b.arena.name nameNode = "") :
    AccessRun b nested node invoked s (.failure node [] [r]) s'
  | named {target nameNode r s₁ e s'} (h : b.arena.shape? node = some (.access target nameNode))
    (ho : b.OperandRun nested target s r s₁) (hn : b.arena.name nameNode ≠ "")
    (hm : b.MemberRun nameNode r (b.arena.name nameNode) 0 invoked s₁ e s') :
    AccessRun b nested node invoked s (e.setNode node) s'

theorem access_run (h : b.memberNode nested node invoked s = (e, s')) :
    b.AccessRun nested node invoked s e s' := by
  by_cases ha : ∃ target nameNode, b.arena.shape? node = some (.access target nameNode)
  · obtain ⟨target, nameNode, ha⟩ := ha
    rcases hr : (nested target >>= b.readable) s with ⟨r, s₁⟩
    have ho := operand_run hr
    rw [bind_apply] at hr
    simp only [memberNode, ha, bind_apply, hr] at h
    by_cases hn : b.arena.name nameNode = ""
    · rw [if_pos hn] at h
      obtain ⟨rfl, rfl⟩ := Prod.mk.inj h
      exact .nameless ha ho hn
    · rw [if_neg hn] at h
      obtain ⟨rfl, rfl⟩ := Prod.mk.inj h
      exact .named ha ho hn (member_run rfl)
  · have hf : b.memberNode nested node invoked = pure (.failure node) := by
      unfold memberNode
      split
      · next target nameNode hs => exact absurd ⟨target, nameNode, hs⟩ ha
      · rfl
    rw [hf] at h
    obtain ⟨rfl, rfl⟩ := Prod.mk.inj h
    exact .other fun target nameNode hs => ha ⟨target, nameNode, hs⟩

/-- A call is bound. -/
inductive CallRun (b : Binder) (nested : NodeRef → BindM BoundExpr) (node target : NodeRef)
    (s : BindState) : BoundExpr → BindState → Prop
  | intro {m s₁ e s'} (ha : b.AccessRun nested target true s m s₁)
    (hi : b.InvokeRun node m s₁ e s') : CallRun b nested node target s e s'

theorem call_run (h : b.callNode nested node target s = (e, s')) :
    b.CallRun nested node target s e s' := by
  unfold callNode at h
  exact .intro (access_run rfl) (invoke_run h)

end Members

end Binder

end UpdateExpr
