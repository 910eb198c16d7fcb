import UpdateExpr.Proofs.Bound.NodeRun
import UpdateExpr.Proofs.Bound.Part

/-!
# Finished expressions

While the initializers of an update are bound, a placeholder stands for the copy that they change,
and each named one is an assignment to a member of it. Both are temporary: of an initializer only
its value and the member that it sets are kept. Marks are not temporary. A part that is marked as
faulty marks all that it is a part of, whichever rule builds the whole.

Both are properties of an expression and its children only. So an expression is called finished
when each of its parts has them, and every rule that builds an expression from finished ones gives
a finished one.

## Main definitions

* `BoundExpr.IsTemporary`: an expression that stands for a copy, or assigns to one
* `BoundExpr.WellMade`, `BoundExpr.Finished`: an expression is in order by itself, or in all parts

## Main results

* `BoundExpr.finished_iff`: an expression is finished if it is well made and its children are
  finished
* `Binder.finished_expr`: what is bound is finished
* `Binder.not_isTemporary_of_partOf`: no placeholder and no assignment is left in what is bound
* `Binder.hasErrors_of_partOf`: marks pass on to all that a marked expression is a part of
-/

namespace UpdateExpr

namespace BoundExpr

/-- An expression that is there only while an update is bound: the placeholder of the copy, or an
assignment. -/
def IsTemporary : BoundExpr → Prop
  | placeholder _ | assignment _ _ _ => True
  | _ => False

/-- An expression is in order, as far as it and its children show. -/
structure WellMade (e : BoundExpr) : Prop where
  lasting : ¬ e.IsTemporary
  /-- A marked child marks the expression. -/
  marked : ∀ c ∈ e.children, c.hasErrors = true → e.hasErrors = true
  /-- An update has a flag besides its mark. A marked child sets it, and it is never set without
  the mark. -/
  failed : ∀ i r clone? entries failed, e = .update i r clone? entries failed →
    (failed = true → i.hasErrors = true) ∧ ∀ c ∈ e.children, c.hasErrors = true → failed = true

/-- All parts of an expression are well made. -/
def Finished (e : BoundExpr) : Prop :=
  ∀ c : BoundExpr, c.PartOf e → c.WellMade

variable {c d e r : BoundExpr} {i : BoundInfo}

/-! ## Building finished expressions -/

theorem finished_iff : e.Finished ↔ e.WellMade ∧ ∀ c ∈ e.children, c.Finished :=
  forall_partOf

theorem Finished.child (h : e.Finished) (hc : c ∈ e.children) : c.Finished :=
  (finished_iff.1 h).2 c hc

/-- A marked part marks all that it is a part of. -/
theorem Finished.hasErrors (h : e.Finished) (hd : d.PartOf e) (hm : d.hasErrors = true) :
    e.hasErrors = true := by
  induction hd with
  | refl => exact hm
  | child _ hc ih => exact (finished_iff.1 h).1.marked _ hc (ih (h.child hc))

theorem Finished.part (h : e.Finished) (hd : d.PartOf e) : d.Finished :=
  fun c hc => h c (hc.trans hd)

/-- An expression other than an update, made of finished ones. -/
theorem finished_of_children (ht : ¬ e.IsTemporary)
    (hu : ∀ i r clone? entries failed, e ≠ .update i r clone? entries failed)
    (hc : ∀ c ∈ e.children, c.Finished ∧ (c.hasErrors = true → e.hasErrors = true)) :
    e.Finished :=
  finished_iff.2 ⟨⟨ht, fun c hm => (hc c hm).2, fun i r clone? entries failed he =>
    absurd he (hu i r clone? entries failed)⟩, fun c hm => (hc c hm).1⟩

/-- A literal or a variable. -/
theorem finished_leaf (ht : ¬ e.IsTemporary)
    (hu : ∀ i r clone? entries failed, e ≠ .update i r clone? entries failed)
    (hc : e.children = []) : e.Finished := by
  refine finished_of_children ht hu ?_
  rw [hc]
  exact nofun

/-- What could not be bound is marked anyway. -/
theorem finished_failure (node : NodeRef) (candidates : List MemberId) {children : List BoundExpr}
    (hc : ∀ c ∈ children, c.Finished) : (failure node candidates children).Finished :=
  finished_of_children id nofun fun c hm => ⟨hc c hm, fun _ => rfl⟩

/-- **Other information changes nothing**, as long as the mark is kept. -/
theorem Finished.setInfo (h : e.Finished) (hi : e.hasErrors = true → i.hasErrors = true) :
    (e.setInfo i).Finished := by
  obtain ⟨hw, hchildren⟩ := finished_iff.1 h
  refine finished_iff.2 ⟨⟨?_, fun c hc hm => ?_, ?_⟩, by rwa [children_setInfo]⟩
  · have hlasting := hw.lasting
    cases e <;> exact hlasting
  · rw [children_setInfo] at hc
    rw [BoundExpr.hasErrors, info_setInfo]
    exact hi (hw.marked c hc hm)
  · intro j r clone? entries failed he
    cases e with
    | update k r' clone' entries' failed' =>
      cases he
      obtain ⟨hf, hc⟩ := hw.failed _ _ _ _ _ rfl
      exact ⟨fun hfailed => hi (hf hfailed), hc⟩
    | _ => cases he

theorem Finished.setNode (h : e.Finished) (node : NodeRef) : (e.setNode node).Finished :=
  h.setInfo id

theorem Finished.addErrors (h : e.Finished) (faulty : Bool) : (e.addErrors faulty).Finished :=
  h.setInfo fun hm => by rw [hm, Bool.true_or]

end BoundExpr

namespace Binder

open BoundExpr

variable {b : Binder} {nested : NodeRef → BindM BoundExpr} {node : NodeRef} {s s' : BindState}

/-! ## Values and members -/

section Uses

variable {e e' left right receiver : BoundExpr} {name : String} {arity : Nat} {invoked : Bool}
  {target : NodeRef}

theorem ReadRun.finished (he : e.Finished) (h : b.ReadRun e s e' s') : e'.Finished := by
  cases h with
  | value _ => exact he
  | group _ _ => exact finished_failure _ _ (List.forall_mem_singleton.2 he)

theorem OperandRun.finished (hn : ∀ {node s e s'}, nested node s = (e, s') → e.Finished)
    (h : b.OperandRun nested node s e s') : e.Finished := by
  obtain ⟨ho, hr⟩ := h
  exact hr.finished (hn ho)

theorem AssignRun.finished {inInitializer : Bool} (he : e.Finished)
    (h : b.AssignRun inInitializer e s e' s') : e'.Finished := by
  cases h with
  | faulty _ => exact he
  | accepted _ _ => exact he
  | refused _ _ _ => exact finished_failure _ _ (List.forall_mem_singleton.2 he)

/-- A target that is checked keeps all parts. -/
theorem AssignRun.partOf {inInitializer : Bool} (h : b.AssignRun inInitializer e s e' s') :
    e.PartOf e' := by
  cases h with
  | faulty _ => exact .refl
  | accepted _ _ => exact .refl
  | refused _ _ _ => exact .child .refl (List.mem_singleton_self e)

theorem ConvertRun.finished {ty : TypeId} (he : e.Finished) (h : b.ConvertRun e ty s e' s') :
    e'.Finished := by
  cases h with
  | same _ => exact he.addErrors _
  | implicit _ _ _ =>
    refine finished_of_children id nofun (List.forall_mem_singleton.2 ⟨he, fun hm => ?_⟩)
    show (e.hasErrors || _) = true
    rw [hm, Bool.true_or]
  | refused _ _ _ _ _ =>
    exact finished_of_children id nofun (List.forall_mem_singleton.2 ⟨he, fun _ => rfl⟩)

theorem FitRun.finished (hr : right.Finished) (h : b.FitRun left right s e' s') :
    e'.Finished := by
  cases h with
  | kept _ => exact hr
  | converted _ _ _ hc => exact hc.finished hr

/-- What some members stand for has the receiver as its only child. -/
theorem finished_access (node : NodeRef) {faulty : Bool} (members : List Candidate)
    (hr : receiver.Finished) (hf : receiver.hasErrors = true → faulty = true) :
    (b.access node receiver faulty members).Finished := by
  refine finished_of_children ?_ ?_ ?_
  · unfold access
    split
    · exact id
    · split <;> exact id
  · unfold access
    split
    · exact nofun
    · split <;> exact nofun
  · rw [children_access, hasErrors_access]
    exact List.forall_mem_singleton.2 ⟨hr, hf⟩

theorem MemberRun.finished (hr : receiver.Finished)
    (h : b.MemberRun node receiver name arity invoked s e s') : e.Finished := by
  cases h with
  | found _ _ _ _ => exact finished_access _ _ hr fun hm => by rw [hm, Bool.true_or]
  | typeless _ _ | faulty _ | missing _ _ _ _ _ _ =>
    exact finished_failure _ _ (List.forall_mem_singleton.2 hr)

theorem AccessRun.finished (hn : ∀ {node s e s'}, nested node s = (e, s') → e.Finished)
    (h : b.AccessRun nested node invoked s e s') : e.Finished := by
  cases h with
  | other _ => exact finished_failure _ _ nofun
  | nameless _ ho _ => exact finished_failure _ _ (List.forall_mem_singleton.2 (ho.finished hn))
  | named _ ho _ hm => exact (hm.finished (ho.finished hn)).setNode _

/-- A call takes its method group apart, and goes on with the receiver of it. -/
theorem InvokeRun.finished (he : e.Finished) (h : b.InvokeRun node e s e' s') : e'.Finished := by
  cases h with
  | @called _ receiver _ _ hg _ =>
    subst hg
    have hr : receiver.Finished := he.child (List.mem_singleton_self receiver)
    exact finished_of_children id nofun (List.forall_mem_singleton.2 ⟨hr, id⟩)
  | @overloads _ receiver _ _ hg =>
    subst hg
    have hr : receiver.Finished := he.child (List.mem_singleton_self receiver)
    exact finished_failure _ _ (List.forall_mem_singleton.2 hr)
  | other _ => exact finished_failure _ _ (List.forall_mem_singleton.2 he)

theorem CallRun.finished (hn : ∀ {node s e s'}, nested node s = (e, s') → e.Finished)
    (h : b.CallRun nested node target s e s') : e.Finished := by
  obtain ⟨ha, hi⟩ := h
  exact hi.finished (ha.finished hn)

end Uses

/-! ## Updates and nodes -/

section Updates

variable {e copy : BoundExpr} {ty : TypeId} {init : BoundInitializer} {nodes : List NodeRef}
  {inits : List BoundInitializer}

theorem ReceiverRun.finished (hn : ∀ {node s e s'}, nested node s = (e, s') → e.Finished)
    (h : b.ReceiverRun nested node s e ty s') : e.Finished := by
  cases h with
  | typed ho _ _ => exact ho.finished hn
  | refused ho => exact (ho.finished hn).addErrors true

/-- **An initializer leaves nothing of its target behind**: its value is what was read, converted
or not, and a marked value makes it faulty. -/
theorem InitializerRun.finished (hn : ∀ {node s e s'}, nested node s = (e, s') → e.Finished)
    (h : b.InitializerRun nested copy node s init s') :
    init.value.Finished ∧ (init.value.hasErrors = true → init.failed = true) := by
  cases h with
  | other _ => exact ⟨finished_failure _ _ nofun, fun _ => rfl⟩
  | bare _ _ ho => exact ⟨ho.finished hn, id⟩
  | named _ _ _ _ ho hf =>
    refine ⟨hf.finished (ho.finished hn), fun hm => ?_⟩
    exact (congrArg (_ || ·) hm).trans (Bool.or_true _)

theorem InitializersRun.finished (hn : ∀ {node s e s'}, nested node s = (e, s') → e.Finished)
    (h : b.InitializersRun nested copy nodes s inits s') :
    ∀ i ∈ inits, i.value.Finished ∧ (i.value.hasErrors = true → i.failed = true) := by
  induction h with
  | nil => exact nofun
  | cons hi _ ih => exact List.forall_mem_cons.2 ⟨hi.finished hn, ih⟩

/-- The mark and the flag of an update are set by its receiver and by its values, among others. -/
theorem UpdateRun.finished (hn : ∀ {node s e s'}, nested node s = (e, s') → e.Finished)
    (h : b.UpdateRun nested node s e s') : e.Finished := by
  cases h with
  | other _ => exact finished_failure _ _ nofun
  | @intro _ _ _ r _ _ clone _ inits _ copyTy failed _ hr _ _ hi hf =>
    have hinits := hi.finished hn
    have hchildren : ∀ c ∈ r :: inits.map (·.value),
        c.Finished ∧ (c.hasErrors = true → failed = true) := by
      refine List.forall_mem_cons.2 ⟨⟨hr.finished hn, fun hm => ?_⟩, fun c hc => ?_⟩
      · rw [hf, hm, Bool.true_or, Bool.true_or]
      · obtain ⟨i, him, rfl⟩ := List.mem_map.1 hc
        obtain ⟨hv, hfail⟩ := hinits i him
        refine ⟨hv, fun hm => ?_⟩
        rw [hf, List.any_eq_true.2 ⟨i, him, hfail hm⟩, Bool.or_true]
    have heq : BoundExpr.children (.update ⟨node, some copyTy, failed⟩ r
        (clone.method?.map (·.member)) (inits.map fun i => (i.member?, i.value)) failed) =
        r :: inits.map (·.value) := by
      rw [BoundExpr.children, List.map_map]
      rfl
    refine finished_iff.2 ⟨⟨id, fun c hc => ?_, ?_⟩, fun c hc => ?_⟩
    · rw [heq] at hc
      exact (hchildren c hc).2
    · rintro _ _ _ _ _ ⟨⟩
      rw [heq]
      exact ⟨id, fun c hc => (hchildren c hc).2⟩
    · rw [heq] at hc
      exact (hchildren c hc).1

theorem NodeRun.finished (hn : ∀ {node s e s'}, nested node s = (e, s') → e.Finished)
    (h : b.NodeRun nested node s e s') : e.Finished := by
  cases h with
  | lacking _ | stray _ _ _ | unknown _ => exact finished_failure _ _ nofun
  | truth _ | null | localVar _ => exact finished_leaf id nofun rfl
  | @literal value _ _ _ =>
    cases value with
    | invalid => exact finished_failure _ _ nofun
    | _ => exact finished_leaf id nofun rfl
  | access _ h => exact h.finished hn
  | call _ h => exact h.finished hn
  | paren _ h => exact hn h
  | update _ h => exact h.finished hn

/-- **What is bound is finished**, down to any depth. -/
theorem finished_expr {depth : Nat} (h : b.expr depth node s = (e, s')) : e.Finished := by
  induction depth generalizing node s e s' with
  | zero =>
    obtain ⟨rfl, -⟩ := Prod.mk.inj h
    exact finished_failure _ _ nofun
  | succ depth ih => exact (node_run h).finished ih

theorem finished_value (b : Binder) (use : ValueUse) (node : NodeRef) (s : BindState) :
    (b.value use node s).1.Finished := by
  have he : (b.bind node s).1.Finished := finished_expr rfl
  cases use with
  | read => exact (read_run rfl).finished he
  | target => exact (assign_run rfl).finished he

/-- The target of a named initializer is made from the copy, whatever comes of it. -/
theorem partOf_target (copy : BoundExpr) (nameNode : NodeRef) (name : String) (s : BindState) :
    copy.PartOf ((b.member nameNode copy name 0 false >>= b.assignable true) s).1 := by
  rcases hm : b.member nameNode copy name 0 false s with ⟨t, s₁⟩
  rcases ha : b.assignable true t s₁ with ⟨t', s₂⟩
  rw [bind_apply, hm, ha]
  have hchild : copy ∈ t.children := by
    rw [(member_run hm).children_eq]
    exact List.mem_singleton_self copy
  exact PartOf.trans (.child .refl hchild) (assign_run ha).partOf

/-- **The placeholder never leaks.** The target of every named initializer has it as a part,
whether its member was found or not. But of all that is bound, as an expression, as a value for
either use, or as an update, no part at any depth is a placeholder or an assignment. -/
theorem not_isTemporary_of_partOf (b : Binder) (node : NodeRef) (s : BindState) :
    (∀ c : BoundExpr, c.PartOf (b.bind node s).1 → ¬ c.IsTemporary) ∧
    (∀ use, ∀ c : BoundExpr, c.PartOf (b.value use node s).1 → ¬ c.IsTemporary) ∧
    (∀ c : BoundExpr, c.PartOf (b.bindUpdate node s).1 → ¬ c.IsTemporary) ∧
    ∀ info nameNode name, BoundExpr.PartOf (.placeholder info)
      ((b.member nameNode (.placeholder info) name 0 false >>= b.assignable true) s).1 := by
  refine ⟨fun c hc => ?_, fun use c hc => ?_, fun c hc => ?_, fun info nameNode name => ?_⟩
  · have hf : (b.bind node s).1.Finished := finished_expr rfl
    exact (hf c hc).lasting
  · exact (finished_value b use node s c hc).lasting
  · have hf : (b.bindUpdate node s).1.Finished := (update_run rfl).finished finished_expr
    exact (hf c hc).lasting
  · exact partOf_target _ nameNode name s

/-- **Marks are closed upwards.** In a value that was bound, every part that has a marked part is
marked; an update that has one in its receiver or in a value has its flag set as well, and no update
has its flag set without the mark. So a value is unmarked exactly if it is so throughout. -/
theorem hasErrors_of_partOf (b : Binder) (use : ValueUse) (node : NodeRef) (s : BindState) :
    let e := (b.value use node s).1
    (∀ c d : BoundExpr, c.PartOf e → d.PartOf c → d.hasErrors = true → c.hasErrors = true) ∧
    (∀ i r clone? entries failed, BoundExpr.PartOf (.update i r clone? entries failed) e →
      (failed = true → i.hasErrors = true) ∧
      ∀ c ∈ r :: entries.map (·.2), ∀ d : BoundExpr, d.PartOf c → d.hasErrors = true →
        failed = true) ∧
    (e.hasErrors = false ↔ ∀ d : BoundExpr, d.PartOf e → d.hasErrors = false) := by
  intro e
  have he : e.Finished := finished_value b use node s
  refine ⟨fun c d hc hd => (he.part hc).hasErrors hd, ?_, fun hf d hd => ?_, fun h => h e .refl⟩
  · intro i r clone? entries failed hu
    obtain ⟨hf, hc⟩ := (he _ hu).failed _ _ _ _ _ rfl
    refine ⟨hf, fun c hm d hd hd' => hc c hm ?_⟩
    exact ((he.part hu).child hm).hasErrors hd hd'
  · refine Bool.eq_false_iff.2 fun hm => ?_
    rw [he.hasErrors hd hm] at hf
    cases hf

end Updates

end Binder

end UpdateExpr
