import UpdateExpr.Proofs.Bound.Lockstep
import UpdateExpr.Proofs.Bound.NodeRun

/-!
# Binding the same source twice, node by node

The rules for nodes keep two binders in step if the rules for nested expressions do, and so
expressions of any depth are bound in step. An ambiguous clone method is where the two differ: the
first binder may report it and mark the update, the second does neither. Both take the same method,
and go on with the same type of the copy.

## Main definitions

* `EchoChoice`, `EchoInitializer`: a clone method and an initializer that differ in their marks
* `KeepStep`: two rules for nested expressions keep in step

## Main results

* `Binder.Twins.chooseClone`: the same clone method, ambiguous or not
* `Binder.Twins.update`: an update
* `Binder.Twins.expr`: expressions of any depth
-/

namespace UpdateExpr

/-- The same method, with an objection on the second side only if there is one on the first. -/
structure EchoChoice (c c' : CloneChoice) : Prop where
  method? : c.method? = c'.method?
  failed : c'.failed = true → c.failed = true

/-- The same member, set to a value that echoes. -/
structure EchoInitializer (m : NodeRef → NodeRef → Prop) (i i' : BoundInitializer) : Prop where
  member? : i.member? = i'.member?
  value : Echo m i.value i'.value
  failed : i'.failed = true → i.failed = true

/-- Two rules for nested expressions keep in step on matching nodes. -/
def KeepStep (m : NodeRef → NodeRef → Prop) (R : Bag → Bag → Prop)
    (nested nested' : NodeRef → BindM BoundExpr) : Prop :=
  ∀ r r', m r r' → Lockstep R (Echo m) (nested r) (nested' r')

namespace Binder.Twins

variable {b b' : Binder} {m : NodeRef → NodeRef → Prop} {R : Bag → Bag → Prop}
  {nested nested' : NodeRef → BindM BoundExpr}

section Parts

variable {node node' : NodeRef} {e e' : BoundExpr} {ty : TypeId}

/-! ## Names, members and calls -/

theorem operand (t : b.Twins b' m R) (hk : KeepStep m R nested nested') (hn : m node node') :
    Lockstep R (Echo m) (nested node >>= b.readable) (nested' node' >>= b'.readable) :=
  (hk node node' hn).bind fun _ _ he => t.readable he

theorem name (t : b.Twins b' m R) (hn : m node node') (name : String) :
    Lockstep R (Echo m) (b.name node name) (b'.name node' name) := by
  unfold Binder.name
  rw [t.scope]
  cases b.scope.lookup? name with
  | none => exact (t.report hn .unknownName nofun _).bind fun _ _ _ => .pure (echo_leaf hn)
  | some v => exact .pure (.localVar ⟨hn, rfl, id⟩)

theorem memberNode (t : b.Twins b' m R) (hk : KeepStep m R nested nested') (hn : m node node')
    (invoked : Bool) :
    Lockstep R (Echo m) (b.memberNode nested node invoked)
      (b'.memberNode nested' node' invoked) := by
  have hs := t.arena.shape? hn
  unfold Binder.memberNode
  generalize b.arena.shape? node = s?, b'.arena.shape? node' = s?' at hs ⊢
  cases hs with
  | none => exact .pure (echo_leaf hn)
  | some hs =>
    cases hs with
    | access ht hname =>
      refine (hk _ _ ht).bind fun e e' he => (t.readable he).bind fun r r' hr => ?_
      rw [← t.arena.name_eq hname]
      dsimp only
      split
      · exact .pure (echo_failure hn [] (.cons hr .nil))
      · exact (t.member hname hr _ 0 invoked).bind fun e e' he => .pure (he.1.setNode hn)
    | _ => exact .pure (echo_leaf hn)

theorem callNode (t : b.Twins b' m R) (hk : KeepStep m R nested nested') (hn : m node node')
    {target target' : NodeRef} (ht : m target target') :
    Lockstep R (Echo m) (b.callNode nested node target) (b'.callNode nested' node' target') := by
  refine (t.memberNode hk ht true).bind fun e e' he => ?_
  have hs := t.arena.shape? ht
  dsimp only
  generalize b.arena.shape? target = s?, b'.arena.shape? target' = s?' at hs ⊢
  cases hs with
  | none =>
    rw [← t.arena.name_eq ht]
    exact t.invoke hn he _
  | some hs =>
    cases hs with
    | access _ hname =>
      rw [← t.arena.name_eq hname]
      exact t.invoke hn he _
    | _ =>
      rw [← t.arena.name_eq ht]
      exact t.invoke hn he _

/-! ## Updates -/

theorem checkCloneType (t : b.Twins b' m R) (hn : m node node') (receiver returned : TypeId) :
    Lockstep R Eq (b.checkCloneType node receiver returned)
      (b'.checkCloneType node' receiver returned) := by
  unfold Binder.checkCloneType
  rw [t.symbols]
  refine (Lockstep.ask (b.symbols.notesBases_derivesFrom _ receiver returned)).bind ?_
  rintro ⟨derives, notes⟩ _ ⟨rfl, -⟩
  dsimp only
  split
  · exact .pure rfl
  refine (t.typeName (some receiver)).bind ?_
  rintro receiver _ rfl
  refine (t.typeName (some returned)).bind ?_
  rintro returned _ rfl
  exact (t.report hn .cloneReturnType nofun _).bind fun _ _ _ => .pure rfl

/-- **Only the first side objects to a choice**, and what it reports leaves the bags related. -/
theorem checkCloneChoice (t : b.Twins b' m R) (node node' : NodeRef) (receiver : TypeId)
    (choice : Candidate) (others : List Candidate) :
    Lockstep R (fun _ clear' => clear' = true) (b.checkCloneChoice node receiver choice others)
      (b'.checkCloneChoice node' receiver choice others) := by
  intro s s' hs
  have hquiet : b'.checkCloneChoice node' receiver choice others s' = (true, s') := by
    unfold Binder.checkCloneChoice
    rw [t.quiet]
    cases others <;> rfl
  rw [hquiet]
  refine ⟨rfl, ?_⟩
  rcases checkCloneChoice_apply (b := b) node receiver choice others s with hc | ⟨span, args, hc⟩
  · rw [hc]
    exact hs
  · rw [hc]
    exact ⟨hs.types, t.alone span args hs.bag⟩

/-- **Both sides take the same clone method**, ambiguous or not. -/
theorem chooseClone (t : b.Twins b' m R) (hn : m node node') (receiver : TypeId) :
    Lockstep R EchoChoice (b.chooseClone node receiver) (b'.chooseClone node' receiver) := by
  unfold Binder.chooseClone
  rw [t.symbols, t.scope]
  split
  · exact .pure ⟨rfl, id⟩
  refine (Lockstep.ask (b.symbols.notesBases_lookup receiver _)).bind ?_
  rintro ⟨l, notes⟩ _ ⟨rfl, -⟩
  dsimp only
  cases (if l.isViable then l.parameterless else []) with
  | nil =>
    refine (t.typeName (some receiver)).bind ?_
    rintro receiver _ rfl
    exact (t.report hn .noCloneMethod nofun _).bind fun _ _ _ => .pure ⟨rfl, id⟩
  | cons choice others =>
    refine (t.checkCloneChoice node node' receiver choice others).bind ?_
    rintro clear _ rfl
    refine (t.checkCloneType hn receiver choice.ty).bind ?_
    rintro derives _ rfl
    refine .pure ⟨rfl, fun hf => ?_⟩
    rw [Bool.or_eq_true] at hf ⊢
    exact .inr (hf.resolve_left nofun)

theorem receiver (t : b.Twins b' m R) (hk : KeepStep m R nested nested') (hn : m node node') :
    Lockstep R (fun p p' => Echo m p.1 p'.1 ∧ p.2 = p'.2) (b.receiver nested node)
      (b'.receiver nested' node') := by
  refine (hk _ _ hn).bind fun e e' he => (t.readable he).bind fun r r' hr => ?_
  rw [← hr.ty?_eq]
  cases r.ty?.filter (· ≠ .void) with
  | none =>
    exact (t.report hn .invalidUpdateReceiver nofun []).bind fun _ _ _ =>
      .pure ⟨hr.addErrors true, rfl⟩
  | some ty => exact .pure ⟨hr, rfl⟩

theorem initializer (t : b.Twins b' m R) (hk : KeepStep m R nested nested') (hn : m node node')
    {copy copy' : BoundExpr} (hc : EchoTarget m copy copy') :
    Lockstep R (EchoInitializer m) (b.initializer nested copy node)
      (b'.initializer nested' copy' node') := by
  have hs := t.arena.shape? hn
  unfold Binder.initializer
  generalize b.arena.shape? node = s?, b'.arena.shape? node' = s?' at hs ⊢
  cases hs with
  | none => exact .pure ⟨rfl, echo_leaf hn, id⟩
  | some hs =>
    cases hs with
    | initializer hname hvalue =>
      dsimp only
      rw [← t.arena.name_eq hname]
      split
      · refine (hk _ _ hvalue).bind fun e e' he => (t.readable he).bind fun v v' hv => ?_
        exact .pure ⟨rfl, hv, hv.hasErrors⟩
      · refine (t.member hname hc.echo _ 0 false).bind fun g g' hg => ?_
        refine (t.assignable ⟨hg.1, hg.2 hc.hasErrors⟩ true).bind fun g g' hg => ?_
        refine (hk _ _ hvalue).bind fun e e' he => (t.readable he).bind fun v v' hv => ?_
        refine (t.fit hg hv).bind fun v v' hv => .pure ⟨hg.echo.symbol?_eq, hv, fun hf => ?_⟩
        rw [Bool.or_eq_true] at hf ⊢
        exact hf.imp (hg.echo.hasErrors ·) hv.hasErrors
    | _ => exact .pure ⟨rfl, echo_leaf hn, id⟩

theorem initializers (t : b.Twins b' m R) (hk : KeepStep m R nested nested')
    {copy copy' : BoundExpr} (hc : EchoTarget m copy copy') {nodes nodes' : List NodeRef}
    (hn : List.Forall₂ m nodes nodes') :
    Lockstep R (List.Forall₂ (EchoInitializer m)) (b.initializers nested copy nodes)
      (b'.initializers nested' copy' nodes') := by
  induction hn with
  | nil => exact .pure .nil
  | cons hn _ ih =>
    exact (t.initializer hk hn hc).bind fun i i' hi =>
      ih.bind fun is is' his => .pure (.cons hi his)

theorem any_failed {is is' : List BoundInitializer} (h : List.Forall₂ (EchoInitializer m) is is')
    (hf : is'.any (·.failed) = true) : is.any (·.failed) = true := by
  obtain ⟨i', hi', hf⟩ := List.any_eq_true.1 hf
  obtain ⟨i, hi, he⟩ := exists_of_forall₂ h.flip i' hi'
  exact List.any_eq_true.2 ⟨i, hi, he.failed hf⟩

theorem echo_update {r r' : BoundExpr} {clone? : Option MemberId} {failed failed' : Bool}
    {is is' : List BoundInitializer} (hn : m node node') (hr : Echo m r r')
    (his : List.Forall₂ (EchoInitializer m) is is') (hf : failed' = true → failed = true) :
    Echo m (.update ⟨node, some ty, failed⟩ r clone? (is.map fun i => (i.member?, i.value)) failed)
      (.update ⟨node', some ty, failed'⟩ r' clone? (is'.map fun i => (i.member?, i.value))
        failed') := by
  have hentries : List.Forall₂ (fun p p' => p.1 = p'.1 ∧ Echo m p.2 p'.2)
      (is.map fun i => (i.member?, i.value)) (is'.map fun i => (i.member?, i.value)) :=
    List.rel_map (fun _ _ hi => ⟨hi.member?, hi.value⟩) his
  rw [List.forall₂_iff_zip] at hentries
  exact .update ⟨hn, rfl, hf⟩ hr hentries.1 (fun _ hp => (hentries.2 hp).1)
    (fun _ hp => (hentries.2 hp).2) hf

/-- **An update.** -/
theorem update (t : b.Twins b' m R) (hk : KeepStep m R nested nested') (hn : m node node') :
    Lockstep R (Echo m) (b.update nested node) (b'.update nested' node') := by
  have hs := t.arena.shape? hn
  unfold Binder.update
  generalize b.arena.shape? node = s?, b'.arena.shape? node' = s?' at hs ⊢
  cases hs with
  | none => exact .pure (echo_leaf hn)
  | some hs =>
    cases hs with
    | update hr he =>
      refine (t.receiver hk hr).bind ?_
      rintro ⟨r, ty⟩ ⟨r', _⟩ ⟨hrr, rfl⟩
      refine (t.chooseClone hr ty).bind fun c c' hc => ?_
      dsimp only
      rw [← hc.method?]
      have hcopy : ∀ ty, EchoTarget m (.placeholder ⟨_, some ty, false⟩)
          (.placeholder ⟨_, some ty, false⟩) := fun _ => ⟨.placeholder ⟨hr, rfl, id⟩, rfl⟩
      refine (t.initializers hk (hcopy _) he).bind fun is is' his => ?_
      refine .pure (echo_update hn hrr his fun hf => ?_)
      rw [Bool.or_eq_true, Bool.or_eq_true] at hf ⊢
      exact hf.imp (Or.imp hrr.hasErrors hc.failed) (any_failed his)
    | _ => exact .pure (echo_leaf hn)

/-! ## Nodes -/

theorem echo_literal (hn : m node node') (value : LiteralValue) :
    Echo m (Binder.literal node value) (Binder.literal node' value) := by
  cases value with
  | invalid => exact echo_leaf hn
  | _ => exact .literal ⟨hn, rfl, id⟩

end Parts

/-- **The rule for one node.** -/
theorem node (t : b.Twins b' m R) (hk : KeepStep m R nested nested') {r r' : NodeRef}
    (hr : m r r') : Lockstep R (Echo m) (b.node nested r) (b'.node nested' r') := by
  have hn := t.arena r r' hr
  unfold Binder.node
  generalize b.arena.get? r = n?, b'.arena.get? r' = n?' at hn ⊢
  cases hn with
  | none => exact .pure (echo_leaf hr)
  | @some n n' hn =>
    obtain ⟨shape, span, missing⟩ := n
    obtain ⟨shape', span', missing'⟩ := n'
    obtain ⟨hs, rfl⟩ : shape.Matched m shape' ∧ missing = missing' := ⟨hn.shape, hn.missing⟩
    cases missing with
    | true => exact .pure (echo_leaf hr)
    | false =>
      cases hs with
      | @token kind =>
        cases kind with
        | trueKeyword | falseKeyword | nullKeyword => exact .pure (.literal ⟨hr, rfl, id⟩)
        | identifier => exact t.name hr ""
        | _ => exact .pure (echo_leaf hr)
      | identifier => exact t.name hr _
      | literal => exact .pure (echo_literal hr _)
      | access _ _ => exact t.memberNode hk hr false
      | call ht => exact t.callNode hk hr ht
      | paren hi => exact hk _ _ hi
      | update _ _ => exact t.update hk hr
      | initializer _ _ => exact .pure (echo_leaf hr)

/-- **Expressions of any depth are bound in step.** -/
theorem expr (t : b.Twins b' m R) (depth : Nat) : KeepStep m R (b.expr depth) (b'.expr depth) := by
  induction depth with
  | zero =>
    exact fun r r' hr => (t.report hr .nestedTooDeeply nofun []).bind fun _ _ _ =>
      .pure (echo_leaf hr)
  | succ depth ih => exact fun r r' hr => t.node ih hr

end Binder.Twins

end UpdateExpr
