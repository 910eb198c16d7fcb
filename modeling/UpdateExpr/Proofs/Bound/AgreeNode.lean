import UpdateExpr.Proofs.Bound.Agree

/-!
# Binding agrees

A node is bound to like expressions whatever the tables have grown to, as long as both know the
types of the symbols and of the scope. Each rule for a node agrees with itself if the rule for
nested expressions does, and from this it follows for expressions of any depth.

## Main definitions

* `Binder.AgreesNested`: the rule for nested expressions agrees with itself

## Main results

* `agree_update`: an update
* `agree_node`: the rule for one node
* `agree_expr`, `agree_bind`: expressions
-/

namespace UpdateExpr

/-- The rule for nested expressions agrees with itself. -/
def Binder.AgreesNested (b : Binder) (nested : NodeRef → BindM BoundExpr) : Prop :=
  ∀ node s s', b.Shared (BindState.both s s') → Agree LikeExprs (nested node) (nested node) s s'

section Nodes

variable {b : Binder} {nested : NodeRef → BindM BoundExpr} {s s' : BindState} {w : Tables}

theorem likeExprs_leaf {node : NodeRef} : LikeExprs w (.failure node) (.failure node) :=
  likeExprs_failure _ _ _ .nil

theorem agree_name (hb : b.Shared (s.both s')) (node : NodeRef) (name : String) :
    Agree LikeExprs (b.name node name) (b.name node name) s s' := by
  unfold Binder.name
  cases hv : b.scope.lookup? name with
  | none => exact (agree_report _ _ _).bind fun _ _ _ _ _ _ => .pure likeExprs_leaf
  | some v => exact .pure (.localVar ⟨rfl, .some (hb.locals name v hv), rfl⟩)

theorem agree_memberNode (hn : b.AgreesNested nested) (hb : b.Shared (s.both s')) (node : NodeRef)
    (invoked : Bool) :
    Agree LikeExprs (b.memberNode nested node invoked) (b.memberNode nested node invoked) s s' := by
  unfold Binder.memberNode
  split
  · refine (hn _ s s' hb).bind fun e e' s₁ s₁' hle₁ he => ?_
    refine (agree_readable (hb.mono hle₁) he).bind fun r r' s₂ s₂' hle₂ hr => ?_
    dsimp only
    split
    · exact .pure (likeExprs_failure _ _ _ (.cons hr .nil))
    · refine (agree_member (hb.mono (hle₁.trans hle₂)) _ hr _ _ _).bind ?_
      intro e e' s₃ s₃' _ he
      exact .pure (he.setNode node)
  · exact .pure likeExprs_leaf

theorem agree_callNode (hn : b.AgreesNested nested) (hb : b.Shared (s.both s'))
    (node target : NodeRef) :
    Agree LikeExprs (b.callNode nested node target) (b.callNode nested node target) s s' :=
  (agree_memberNode hn hb target true).bind fun _ _ _ _ _ he => agree_invoke node he _

/-! ## Updates -/

/-- The same method, with like types, and the same objection. -/
structure LikeChoices (w : Tables) (c c' : CloneChoice) : Prop where
  method? : Option.Rel (LikeCandidates w) c.method? c'.method?
  failed : c.failed = c'.failed

/-- The same member, set to like values. -/
structure LikeInitializers (w : Tables) (i i' : BoundInitializer) : Prop where
  member? : i.member? = i'.member?
  value : LikeExprs w i.value i'.value
  failed : i.failed = i'.failed

theorem lasting_likeInitializers : Lasting LikeInitializers :=
  fun _ _ _ _ h hle => ⟨h.member?, h.value.mono hle, h.failed⟩

theorem likeExprs_placeholder {ty ty' : TypeId} (node : NodeRef) (h : Alike w ty ty') :
    LikeExprs w (.placeholder ⟨node, some ty, false⟩) (.placeholder ⟨node, some ty', false⟩) :=
  .placeholder ⟨rfl, .some h, rfl⟩

theorem likeExprs_update {ty ty' : TypeId} {r r' : BoundExpr} {clone? : Option MemberId}
    {failed : Bool} {is is' : List BoundInitializer} (node : NodeRef) (hr : LikeExprs w r r')
    (hty : Alike w ty ty') (his : List.Forall₂ (LikeInitializers w) is is') :
    LikeExprs w
      (.update ⟨node, some ty, failed⟩ r clone? (is.map fun i => (i.member?, i.value)) failed)
      (.update ⟨node, some ty', failed⟩ r' clone? (is'.map fun i => (i.member?, i.value))
        failed) := by
  have hentries : List.Forall₂ (fun p p' => p.1 = p'.1 ∧ LikeExprs w p.2 p'.2)
      (is.map fun i => (i.member?, i.value)) (is'.map fun i => (i.member?, i.value)) :=
    List.rel_map (fun _ _ hi => ⟨hi.member?, hi.value⟩) his
  rw [List.forall₂_iff_zip] at hentries
  exact .update ⟨rfl, .some hty, rfl⟩ hr hentries.1 (fun _ hp => (hentries.2 hp).1)
    fun _ hp => (hentries.2 hp).2

theorem agree_checkCloneType (hb : b.Shared (s.both s')) (node : NodeRef)
    {receiver receiver' returned returned' : TypeId} (hr : Alike (s.both s') receiver receiver')
    (ht : Alike (s.both s') returned returned') :
    Agree Equal (b.checkCloneType node receiver returned)
      (b.checkCloneType node receiver' returned') s s' := by
  refine (agree_ask (agree_derivesFrom hb.symbols hr ht _)).bind ?_
  rintro ⟨derives, notes⟩ ⟨_, _⟩ s₁ s₁' hle₁ ⟨rfl, -⟩
  dsimp only
  split
  · exact .pure rfl
  refine (agree_typeName (.some (hr.mono hle₁))).bind ?_
  rintro receiver _ s₂ s₂' hle₂ rfl
  refine (agree_typeName (.some (ht.mono (hle₁.trans hle₂)))).bind ?_
  rintro returned _ s₃ s₃' - rfl
  exact (agree_report _ _ _).bind fun _ _ _ _ _ _ => .pure rfl

theorem agree_checkCloneChoice (hb : b.Shared (s.both s')) (node : NodeRef)
    {receiver receiver' : TypeId} (hr : Alike (s.both s') receiver receiver') {c c' : Candidate}
    (hc : LikeCandidates w c c') {others others' : List Candidate}
    (ho : List.Forall₂ (LikeCandidates w) others others') :
    Agree Equal (b.checkCloneChoice node receiver c others)
      (b.checkCloneChoice node receiver' c' others') s s' := by
  unfold Binder.checkCloneChoice
  cases b.options.reportAmbiguousClone with
  | false => cases ho <;> exact .pure rfl
  | true =>
    cases ho with
    | nil => exact .pure rfl
    | cons hother _ =>
      dsimp only
      rw [hc.member, hother.member]
      refine (agree_typeName (.some hr)).bind ?_
      rintro receiver _ s₁ s₁' hle₁ rfl
      refine (agree_memberName (hb.mono hle₁) _).bind ?_
      rintro choice _ s₂ s₂' hle₂ rfl
      refine (agree_memberName (hb.mono (hle₁.trans hle₂)) _).bind ?_
      rintro other _ s₃ s₃' - rfl
      exact (agree_report _ _ _).bind fun _ _ _ _ _ _ => .pure rfl

/-- The clone method for like types of receivers. -/
theorem agree_chooseClone (hb : b.Shared (s.both s')) (node : NodeRef)
    {receiver receiver' : TypeId} (hr : Alike (s.both s') receiver receiver') :
    Agree LikeChoices (b.chooseClone node receiver) (b.chooseClone node receiver') s s' := by
  unfold Binder.chooseClone
  rw [hr.isError_eq]
  split
  · exact .pure ⟨.none, rfl⟩
  refine (agree_ask (agree_lookup hb.symbols hr)).bind ?_
  rintro ⟨l, notes⟩ ⟨l', _⟩ s₁ s₁' hle₁ ⟨hl, -⟩
  dsimp only
  have hmethods : List.Forall₂ (LikeCandidates (s₁.both s₁'))
      (if l.isViable then l.parameterless else [])
      (if l'.isViable then l'.parameterless else []) := by
    rw [Lookup.isViable, Lookup.isViable, hl.verdict]
    split
    · refine List.rel_filter (fun c c' hc => ?_) hl.candidates
      dsimp only
      rw [hc.isEmpty_eq]
    · exact .nil
  generalize (if l.isViable then l.parameterless else []) = ms,
    (if l'.isViable then l'.parameterless else []) = ms' at hmethods
  cases hmethods with
  | nil =>
    refine (agree_typeName (.some (hr.mono hle₁))).bind ?_
    rintro receiver _ s₂ s₂' - rfl
    exact (agree_report _ _ _).bind fun _ _ _ _ _ _ => .pure ⟨.none, rfl⟩
  | cons hc ho =>
    refine (agree_checkCloneChoice (hb.mono hle₁) node (hr.mono hle₁) hc ho).bind ?_
    rintro clear _ s₂ s₂' hle₂ rfl
    have hle := hle₁.trans hle₂
    refine (agree_checkCloneType (hb.mono hle) node (hr.mono hle) (hc.ty.mono hle₂)).bind ?_
    rintro derives _ s₃ s₃' hle₃ rfl
    exact .pure ⟨.some (lasting_likeCandidates hc (hle₂.trans hle₃)), rfl⟩

/-- The receiver of an update, and its type. -/
theorem agree_receiver (hn : b.AgreesNested nested) (hb : b.Shared (s.both s')) (node : NodeRef) :
    Agree (fun w p p' => LikeExprs w p.1 p'.1 ∧ Alike w p.2 p'.2) (b.receiver nested node)
      (b.receiver nested node) s s' := by
  refine (hn node s s' hb).bind fun e e' s₁ s₁' hle₁ he => ?_
  refine (agree_readable (hb.mono hle₁) he).bind fun r r' s₂ s₂' hle₂ hr => ?_
  have refused : Agree (fun w p p' => LikeExprs w p.1 p'.1 ∧ Alike w p.2 p'.2)
      (b.report node .invalidUpdateReceiver >>= fun _ => pure (r.addErrors true, TypeId.error))
      (b.report node .invalidUpdateReceiver >>= fun _ => pure (r'.addErrors true, TypeId.error))
      s₂ s₂' :=
    (agree_report _ _ _).bind fun _ _ _ _ hle₃ _ =>
      .pure ⟨(hr.mono hle₃).addErrors true, alike_id _ .error⟩
  rcases hr.ty?_cases with ⟨ht, ht'⟩ | ⟨ty, ty', ht, ht', hty⟩
  · rw [ht, ht']
    exact refused
  · have hvoid : ty ≠ .void ↔ ty' ≠ .void := not_congr (hty.eq_iff (alike_id _ .void))
    rw [ht, ht']
    by_cases hv : ty ≠ .void
    · simp only [Option.filter_some, hv, hvoid.1 hv, ne_eq, not_false_eq_true, decide_true, if_true]
      exact .pure ⟨hr, hty⟩
    · simp only [Option.filter_some, hv, mt hvoid.2 hv, decide_false, Bool.false_eq_true, if_false]
      exact refused

theorem agree_initializer (hn : b.AgreesNested nested) (hb : b.Shared (s.both s'))
    {copy copy' : BoundExpr} (hc : LikeExprs (s.both s') copy copy') (node : NodeRef) :
    Agree LikeInitializers (b.initializer nested copy node) (b.initializer nested copy' node)
      s s' := by
  unfold Binder.initializer
  split
  · dsimp only
    split
    · refine (hn _ s s' hb).bind fun e e' s₁ s₁' hle₁ he => ?_
      refine (agree_readable (hb.mono hle₁) he).bind fun v v' s₂ s₂' hle₂ hv => ?_
      exact .pure ⟨rfl, hv, hv.hasErrors_eq⟩
    · refine (agree_member hb _ hc _ _ _).bind fun t t' s₁ s₁' hle₁ ht => ?_
      refine (agree_assignable (hb.mono hle₁) ht true).bind fun t t' s₂ s₂' hle₂ ht => ?_
      have hle₂ := hle₁.trans hle₂
      refine (hn _ s₂ s₂' (hb.mono hle₂)).bind fun e e' s₃ s₃' hle₃ he => ?_
      have hb₃ := hb.mono (hle₂.trans hle₃)
      refine (agree_readable hb₃ he).bind fun v v' s₄ s₄' hle₄ hv => ?_
      have ht₄ := ht.mono (hle₃.trans hle₄)
      refine (agree_fit (hb₃.mono hle₄) ht₄ hv).bind fun v v' s₅ s₅' hle₅ hv => ?_
      refine .pure ⟨ht₄.symbol?_eq, hv, ?_⟩
      rw [ht₄.hasErrors_eq, hv.hasErrors_eq]
  · exact .pure ⟨rfl, likeExprs_leaf, rfl⟩

theorem agree_initializers (hn : b.AgreesNested nested) (hb : b.Shared (s.both s'))
    {copy copy' : BoundExpr} (hc : LikeExprs (s.both s') copy copy') (nodes : List NodeRef) :
    Agree (Each LikeInitializers) (b.initializers nested copy nodes)
      (b.initializers nested copy' nodes) s s' := by
  induction nodes generalizing s s' with
  | nil => exact .pure .nil
  | cons node rest ih =>
    refine (agree_initializer hn hb hc node).bind fun i i' s₁ s₁' hle₁ hi => ?_
    refine (ih (hb.mono hle₁) (hc.mono hle₁)).bind fun is is' s₂ s₂' hle₂ his => ?_
    exact .pure (.cons (lasting_likeInitializers hi hle₂) his)

/-- **An update.** -/
theorem agree_update (hn : b.AgreesNested nested) (hb : b.Shared (s.both s')) (node : NodeRef) :
    Agree LikeExprs (b.update nested node) (b.update nested node) s s' := by
  unfold Binder.update
  split
  · refine (agree_receiver hn hb _).bind ?_
    rintro ⟨r, ty⟩ ⟨r', ty'⟩ s₁ s₁' hle₁ ⟨hr, hty⟩
    refine (agree_chooseClone (hb.mono hle₁) _ hty).bind fun c c' s₂ s₂' hle₂ hc => ?_
    have hle := hle₁.trans hle₂
    have hcopy : Alike (s₂.both s₂') ((c.method?.map (·.ty)).getD ty)
        ((c'.method?.map (·.ty)).getD ty') := by
      have hm := hc.method?
      generalize c.method? = m?, c'.method? = m?' at hm
      cases hm with
      | none => exact hty.mono hle₂
      | some hm => exact hm.ty
    refine (agree_initializers hn (hb.mono hle) (likeExprs_placeholder _ hcopy) _).bind ?_
    intro is is' s₃ s₃' hle₃ his
    have hfailed : is.any (·.failed) = is'.any (·.failed) := rel_any his fun _ _ hi => hi.failed
    have hmethod : c.method?.map (·.member) = c'.method?.map (·.member) := by
      have hm := hc.method?
      generalize c.method? = m?, c'.method? = m?' at hm
      cases hm with
      | none => rfl
      | some hm => exact congrArg some hm.member
    rw [hr.hasErrors_eq, hc.failed, hfailed, hmethod]
    exact .pure (likeExprs_update node (hr.mono (hle₂.trans hle₃)) (hcopy.mono hle₃) his)
  · exact .pure likeExprs_leaf

/-! ## Nodes -/

theorem likeExprs_literal (w : Tables) (node : NodeRef) (value : LiteralValue) :
    LikeExprs w (Binder.literal node value) (Binder.literal node value) := by
  cases value with
  | invalid => exact likeExprs_leaf
  | _ => exact .literal ⟨rfl, .some (alike_id _ _), rfl⟩

/-- **The rule for one node.** -/
theorem agree_node (hn : b.AgreesNested nested) (hb : b.Shared (s.both s')) (node : NodeRef) :
    Agree LikeExprs (b.node nested node) (b.node nested node) s s' := by
  unfold Binder.node
  split
  · exact .pure likeExprs_leaf
  · exact .pure likeExprs_leaf
  split
  · exact .pure (.literal ⟨rfl, .some (alike_id _ _), rfl⟩)
  · exact .pure (.literal ⟨rfl, .some (alike_id _ _), rfl⟩)
  · exact .pure (.literal ⟨rfl, .none, rfl⟩)
  · exact agree_name hb node ""
  · exact agree_name hb node _
  · exact .pure (likeExprs_literal _ node _)
  · exact agree_memberNode hn hb node false
  · exact agree_callNode hn hb node _
  · exact hn _ s s' hb
  · exact agree_update hn hb node
  · exact .pure likeExprs_leaf
  · exact .pure likeExprs_leaf

/-- **Expressions of any depth.** -/
theorem agree_expr (hb : b.Shared (s.both s')) (depth : Nat) (node : NodeRef) :
    Agree LikeExprs (b.expr depth node) (b.expr depth node) s s' := by
  induction depth generalizing node s s' with
  | zero => exact (agree_report _ _ _).bind fun _ _ _ _ _ _ => .pure likeExprs_leaf
  | succ depth ih => exact agree_node (fun node s s' hb => ih hb node) hb node

/-- An expression that is bound as a whole. -/
theorem agree_bind (hb : b.Shared (s.both s')) (node : NodeRef) :
    Agree LikeExprs (b.bind node) (b.bind node) s s' :=
  agree_expr hb _ node

end Nodes

end UpdateExpr
