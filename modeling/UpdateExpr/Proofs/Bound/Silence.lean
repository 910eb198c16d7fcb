import UpdateExpr.Proofs.Bound.Flag
import UpdateExpr.Proofs.Bound.Typing
import UpdateExpr.Proofs.Syntax.Layout
import UpdateExpr.Proofs.Syntax.Parse

/-!
# No failure is silent

Many rules give a bad expression without saying anything: what they lack was reported before, by
the reader of the text, or by the rule for a part. So it takes both halves to see that nothing
fails in silence. A text that is read without a problem has a whole tree, where no rule finds
anything missing; and on a whole tree, a rule that stays quiet gives an expression without the
mark, if the rules for its parts do.

The error type is the third way to say nothing. A rule that meets it takes for granted that the
fault behind it was reported. It comes from faults only, as long as no symbol and no variable
mentions it: this is what soundness gives for expressions without the mark.

## Main definitions

* `Binder.Quiet`: nothing was reported from one state to another

## Main results

* `Binder.hasErrors_of_quiet`: a whole node that is bound quietly gives an expression without the
  mark
* `Binder.reported_of_failure`: where a text has a failure, there is a diagnostic
-/

namespace UpdateExpr

namespace Binder

/-- Nothing was reported from one state to another. -/
def Quiet (s s' : BindState) : Prop :=
  s'.bag.entries = s.bag.entries

/-- The rule for nested expressions reports at the end of the bag, and it gives expressions that are
checked, without the mark where a whole node is bound quietly. -/
structure SpeaksUp (b : Binder) (good : TypeTable → TypeId → Prop)
    (nested : NodeRef → BindM BoundExpr) : Prop where
  adds : ∀ {node s e s'}, nested node s = (e, s') → b.Accounts e s s'
  checks : b.ChecksNested good nested
  marks : ∀ {node s e s'}, b.AllGood good s.types → b.arena.Whole node →
    nested node s = (e, s') → Quiet s s' → e.hasErrors = false

section Quiet

variable {b : Binder} {good : TypeTable → TypeId → Prop} {s s₁ s' : BindState}
  {e e' receiver : BoundExpr} {node target : NodeRef} {name : String} {ty : TypeId}
  {invoked : Bool} {nested : NodeRef → BindM BoundExpr}

/-- If nothing was reported in two steps, nothing was in either. -/
theorem quiet_of_adds (h : Adds (fun _ => True) s s₁) (h' : Adds (fun _ => True) s₁ s')
    (hq : Quiet s s') : Quiet s s₁ ∧ Quiet s₁ s' := by
  obtain ⟨-, more, he, -⟩ := h
  obtain ⟨-, more', he', -⟩ := h'
  have hnil : more ++ more' = [] := by
    rw [Quiet, he', he, List.append_assoc, List.append_right_eq_self] at hq
    exact hq
  obtain ⟨rfl, rfl⟩ := List.append_eq_nil_iff.1 hnil
  rw [List.append_nil] at he he'
  exact ⟨he, he'⟩

/-- A report is heard, whatever came before. -/
theorem not_quiet_tell (h : Adds (fun _ => True) s s₁) (code : Nat) (span : Span)
    (args : List String) : ¬ Quiet s (s₁.tell code span args) := by
  intro hq
  obtain ⟨-, hq⟩ := quiet_of_adds h (adds_tell code span args) hq
  rw [Quiet, BindState.entries_tell, List.append_right_eq_self] at hq
  cases hq

theorem notes_eq_nil {types : TypeTable} {span : Span} {notes : List UseSite}
    (hq : Quiet s ((s.withTypes types).tellNotes span notes)) : notes = [] := by
  rw [Quiet, BindState.entries_tellNotes, BindState.bag_withTypes, List.append_right_eq_self] at hq
  exact List.map_eq_nil_iff.1 hq

/-! ## Values -/

theorem OperandRun.hasErrors_of_quiet (hn : b.SpeaksUp good nested) (hb : b.AllGood good s.types)
    (hw : b.arena.Whole node) (h : b.OperandRun nested node s e s') (hq : Quiet s s') :
    e.hasErrors = false := by
  obtain ⟨ho, hr⟩ := h
  cases hr with
  | value _ => exact hn.marks hb hw ho hq
  | group name _ => exact absurd hq (not_quiet_tell (hn.adds ho).adds _ _ _)

theorem ConvertRun.hasErrors_of_quiet (h : b.ConvertRun e ty s e' s') (he : e.hasErrors = false)
    (hq : Quiet s s') : e'.hasErrors = false := by
  have hfaulty : ∀ {conversion faulty}, b.ConversionRun e ty s conversion faulty s' →
      faulty = false := by
    intro conversion faulty hc
    cases hc with
    | null _ => rfl
    | typeless _ _ => rfl
    | classified _ _ _ => rw [notes_eq_nil hq]; rfl
  cases h with
  | same hc =>
    rw [BoundExpr.hasErrors_addErrors, he, hfaulty hc]
    rfl
  | implicit hc _ _ =>
    show (e.hasErrors || _) = false
    rw [he, hfaulty hc]
    rfl
  | refused issue args hc _ _ => exact absurd hq (not_quiet_tell hc.adds.1 _ _ _)

theorem FitRun.hasErrors_of_quiet {left right : BoundExpr} (h : b.FitRun left right s e' s')
    (hr : right.hasErrors = false) (hq : Quiet s s') : e'.hasErrors = false := by
  cases h with
  | kept _ => exact hr
  | converted _ _ _ hc => exact hc.hasErrors_of_quiet hr hq

theorem AssignRun.hasErrors_of_quiet {inInitializer : Bool}
    (h : b.AssignRun inInitializer e s e' s') (he : e.hasErrors = false) (hq : Quiet s s') :
    e'.hasErrors = false := by
  cases h with
  | faulty hf => rw [he] at hf; cases hf
  | accepted _ _ => exact he
  | refused _ _ _ => exact absurd hq (not_quiet_tell .refl _ _ _)

/-! ## Members -/

theorem MemberRun.hasErrors_of_quiet (hp : TypeTable.Proper good)
    (h : b.MemberRun node receiver name 0 invoked s e s') (hr : receiver.hasErrors = false)
    (hgood : ∀ ty ∈ receiver.ty?, good s.types ty) (hq : Quiet s s') : e.hasErrors = false := by
  cases h with
  | typeless args _ => exact absurd hq (not_quiet_tell .refl _ _ _)
  | faulty ht => exact absurd (hgood .error ht) (hp.error _)
  | missing issue args _ _ _ _ =>
    refine absurd hq (not_quiet_tell ?_ _ _ _)
    exact (adds_tellNotes _ _ _).mono fun _ _ => trivial
  | found _ _ _ _ =>
    rw [hasErrors_access, hr, notes_eq_nil hq]
    rfl

theorem AccessRun.hasErrors_of_quiet (hp : TypeTable.Proper good) (hn : b.SpeaksUp good nested)
    (hb : b.AllGood good s.types) (hw : b.arena.Whole node) {operand nameNode : NodeRef}
    (hs : b.arena.shape? node = some (.access operand nameNode))
    (h : b.AccessRun nested node invoked s e s') (hq : Quiet s s') : e.hasErrors = false := by
  obtain ⟨hwhole, hname⟩ := hw.access_parts hs
  cases h with
  | other hno => exact absurd hs (hno _ _)
  | nameless hs' _ hempty =>
    rw [hs] at hs'
    cases hs'
    exact absurd hempty hname
  | named hs' ho _ hm =>
    rw [hs] at hs'
    cases hs'
    obtain ⟨hq₁, hq₂⟩ := quiet_of_adds (ho.accounts hn.adds).adds hm.adds.1 hq
    have hr := ho.hasErrors_of_quiet hn hb hwhole hq₁
    obtain ⟨-, hsound⟩ := ho.checked hn.checks hb hr
    rw [BoundExpr.hasErrors_setNode]
    exact hm.hasErrors_of_quiet hp hr (fun ty h => hsound.good_ty h) hq₂

/-- A called name without the mark stands for a group of methods, whose receiver is not marked. -/
theorem AccessRun.exists_methodGroup (hp : TypeTable.Proper good) (hn : b.ChecksNested good nested)
    (hb : b.AllGood good s.types) (h : b.AccessRun nested node true s e s')
    (hf : e.hasErrors = false) :
    ∃ info receiver methods, e = .methodGroup info receiver methods ∧
      receiver.hasErrors = false := by
  cases h with
  | other _ => cases hf
  | nameless _ _ _ => cases hf
  | @named _ nameNode r s₁ e _ _ ho _ hm =>
    rw [BoundExpr.hasErrors_setNode] at hf
    have hr := hm.receiver_hasErrors hf
    obtain ⟨hgrow, hsound⟩ := ho.checked hn hb hr
    obtain ⟨-, ty, c, cs, -, he, hall⟩ :=
      hm.finds hp (hb.grow hgrow) (fun ty h => hsound.good_ty h) (.inl hf)
    obtain ⟨m, hfound⟩ := hall c (by simp)
    have hmethod := hfound.admits.isMethod rfl
    rcases access_cases nameNode r e.hasErrors cs hfound.found with
      ⟨-, hno, -⟩ | ⟨-, hno, -⟩ | ⟨-, ha⟩
    · rw [hmethod] at hno
      cases hno
    · rw [hmethod] at hno
      cases hno
    · rw [he, ha]
      exact ⟨_, r, _, rfl, hr⟩

theorem CallRun.hasErrors_of_quiet (hp : TypeTable.Proper good) (hn : b.SpeaksUp good nested)
    (hb : b.AllGood good s.types) (hw : b.arena.Whole node)
    (hs : b.arena.shape? node = some (.call target)) (h : b.CallRun nested node target s e s')
    (hq : Quiet s s') : e.hasErrors = false := by
  obtain ⟨hwhole, operand, nameNode, hst⟩ := hw.call_target hs
  obtain ⟨ha, hi⟩ := h
  have hadds := (ha.accounts hn.adds).adds
  cases hi with
  | overloads name _ => exact absurd hq (not_quiet_tell hadds _ _ _)
  | other hno =>
    have hf := ha.hasErrors_of_quiet hp hn hb hwhole hst hq
    obtain ⟨info, r, ms, he, -⟩ := ha.exists_methodGroup hp hn.checks hb hf
    exact absurd he (hno _ _ _)
  | called hg _ =>
    have hf := ha.hasErrors_of_quiet hp hn hb hwhole hst hq
    obtain ⟨info, r, ms, he, hr⟩ := ha.exists_methodGroup hp hn.checks hb hf
    rw [hg] at he
    cases he
    exact hr

/-! ## Updates -/

theorem ReceiverRun.hasErrors_of_quiet (hn : b.SpeaksUp good nested) (hb : b.AllGood good s.types)
    (hw : b.arena.Whole node) (h : b.ReceiverRun nested node s e ty s') (hq : Quiet s s') :
    e.hasErrors = false := by
  cases h with
  | typed ho _ _ => exact ho.hasErrors_of_quiet hn hb hw hq
  | refused ho => exact absurd hq (not_quiet_tell (ho.accounts hn.adds).adds _ _ _)

theorem CloneRun.failed_of_quiet {choice : CloneChoice} (h : b.CloneRun ty s choice s')
    (hq : Quiet s s') : choice.failed = false := by
  cases h with
  | faulty _ => rfl
  | chosen _ _ _ _ _ => rfl
  | absent types span args =>
    have hadds : Adds (fun _ => True) s (s.withTypes types) := .of_bag_eq rfl
    exact absurd hq (not_quiet_tell hadds _ _ _)
  | doubtful d ds _ he _ =>
    rw [Quiet, he, List.append_right_eq_self] at hq
    cases hq

theorem InitializerRun.failed_of_quiet (hp : TypeTable.Proper good) (hn : b.SpeaksUp good nested)
    (hb : b.AllGood good s.types) {i : BoundInfo} (hi : i.ty? = some ty) (hif : i.hasErrors = false)
    (hty : good s.types ty) {init : BoundInitializer} {nameNode valueNode : NodeRef}
    (hs : b.arena.shape? node = some (.initializer nameNode valueNode))
    (hw : b.arena.Whole valueNode)
    (h : b.InitializerRun nested (.placeholder i) node s init s') (hq : Quiet s s') :
    init.failed = false := by
  cases h with
  | other hno => exact absurd hs (hno _ _)
  | bare hs' _ ho =>
    rw [hs] at hs'
    cases hs'
    exact ho.hasErrors_of_quiet hn hb hw hq
  | @named _ _ t s₁ t' s₂ v s₃ v' _ hs' _ hm ha ho hfit =>
    rw [hs] at hs'
    cases hs'
    have hrest := (ho.accounts hn.adds).adds.trans hfit.adds.1
    obtain ⟨hq₁, hq'⟩ := quiet_of_adds hm.adds.1 (ha.adds.1.trans hrest) hq
    obtain ⟨hq₂, hq''⟩ := quiet_of_adds ha.adds.1 hrest hq'
    obtain ⟨hq₃, hq₄⟩ := quiet_of_adds (ho.accounts hn.adds).adds hfit.adds.1 hq''
    have ht := hm.hasErrors_of_quiet hp hif (good_placeholder hi hty) hq₁
    have ht' := ha.hasErrors_of_quiet ht hq₂
    obtain ⟨hgrow, -⟩ := target_checked hp hb hi hty hm ha ht'
    have hv := ho.hasErrors_of_quiet hn (hb.grow hgrow) hw hq₃
    have hv' := hfit.hasErrors_of_quiet hv hq₄
    show (t'.hasErrors || v'.hasErrors) = false
    rw [ht', hv']
    rfl

theorem InitializersRun.failed_of_quiet (hp : TypeTable.Proper good) (hn : b.SpeaksUp good nested)
    {i : BoundInfo} (hi : i.ty? = some ty) (hif : i.hasErrors = false) {nodes : List NodeRef}
    {inits : List BoundInitializer} (hb : b.AllGood good s.types) (hty : good s.types ty)
    (hw : ∀ node ∈ nodes, ∃ nameNode valueNode,
      b.arena.shape? node = some (.initializer nameNode valueNode) ∧ b.arena.Whole valueNode)
    (h : b.InitializersRun nested (.placeholder i) nodes s inits s') (hq : Quiet s s') :
    inits.any (·.failed) = false := by
  generalize hcopy : BoundExpr.placeholder i = copy at h
  induction h with
  | nil => rfl
  | cons hinit hrest ih =>
    subst hcopy
    rw [List.forall_mem_cons] at hw
    obtain ⟨⟨nameNode, valueNode, hs, hwhole⟩, hw⟩ := hw
    obtain ⟨hq₁, hq₂⟩ := quiet_of_adds (hinit.adds hn.adds).1 (hrest.adds hn.adds).1 hq
    have hf := hinit.failed_of_quiet hp hn hb hi hif hty hs hwhole hq₁
    obtain ⟨hgrow, -⟩ := hinit.checked hp hn.checks hb hi hty hf
    rw [List.any_cons, hf, ih (hb.grow hgrow) (hgrow.keep hty) hw hq₂]
    rfl

theorem UpdateRun.hasErrors_of_quiet (hp : TypeTable.Proper good) (hn : b.SpeaksUp good nested)
    (hb : b.AllGood good s.types) (hw : b.arena.Whole node) {r : NodeRef} {entries : List NodeRef}
    {list : ListSpan} (hs : b.arena.shape? node = some (.update r entries list))
    (h : b.UpdateRun nested node s e s') (hq : Quiet s s') : e.hasErrors = false := by
  obtain ⟨hwhole, hentries⟩ := hw.update_parts hs
  cases h with
  | other hno => exact absurd hs (hno _ _ _)
  | @intro _ _ _ receiver ty s₁ clone s₂ inits _ copyTy failed hs' hr hc hcopy hi hfailed =>
    rw [hs] at hs'
    cases hs'
    have hrest := hc.adds.1.trans (hi.adds hn.adds).1
    obtain ⟨hq₁, hq'⟩ := quiet_of_adds (hr.accounts hn.adds).adds hrest hq
    obtain ⟨hq₂, hq₃⟩ := quiet_of_adds hc.adds.1 (hi.adds hn.adds).1 hq'
    have hrf := hr.hasErrors_of_quiet hn hb hwhole hq₁
    have hcf := hc.failed_of_quiet hq₂
    obtain ⟨hgrow₁, hsound, hrty, -⟩ := hr.checked hn.checks hb hrf
    have hb₁ := hb.grow hgrow₁
    obtain ⟨hgrow₂, c, m, rfl, hcty, -⟩ := hc.checked hp hb₁ (hsound.good_ty hrty) hcf
    have hcopy' : copyTy = c.ty := hcopy
    subst hcopy'
    have hif := hi.failed_of_quiet hp hn rfl rfl (hb₁.grow hgrow₂) hcty hentries hq₃
    show failed = false
    rw [hfailed, hrf, hcf, hif]
    rfl

/-! ## Nodes -/

theorem NodeRun.hasErrors_of_quiet (hp : TypeTable.Proper good) (hn : b.SpeaksUp good nested)
    (hb : b.AllGood good s.types) (hw : b.arena.Whole node) (h : b.NodeRun nested node s e s')
    (hq : Quiet s s') : e.hasErrors = false := by
  obtain ⟨n, hget, hthere, hplace, hvalue⟩ := hw.exists_get?
  cases h with
  | lacking hno =>
    rw [hno n hget] at hthere
    cases hthere
  | stray hget' _ hstray =>
    rw [hget] at hget'
    cases hget'
    rcases hstray with ⟨name, value, hs⟩ | ⟨kind, hs, hk⟩
    · exact absurd hs (hplace name value)
    · have hkind := hvalue kind hs
      cases kind <;> simp [TokenKind.isValue] at hkind hk
  | truth _ => rfl
  | null => rfl
  | @literal value _ _ hs =>
    have hne := hw.literal_value hs
    cases value with
    | invalid => exact absurd rfl hne
    | _ => rfl
  | localVar _ => rfl
  | unknown name => exact absurd hq (not_quiet_tell .refl _ _ _)
  | access hs h => exact h.hasErrors_of_quiet hp hn hb hw hs hq
  | call hs h => exact h.hasErrors_of_quiet hp hn hb hw hs hq
  | paren hs h => exact hn.marks hb (hw.paren_inner hs) h hq
  | update hs h => exact h.hasErrors_of_quiet hp hn hb hw hs hq

/-- **A whole node that is bound quietly gives an expression without the mark**, at any depth. -/
theorem hasErrors_of_quiet (hp : TypeTable.Proper good) {depth : Nat} (hb : b.AllGood good s.types)
    (hw : b.arena.Whole node) (h : b.expr depth node s = (e, s')) (hq : Quiet s s') :
    e.hasErrors = false := by
  induction depth generalizing node s e s' with
  | zero =>
    obtain ⟨rfl, rfl⟩ := Prod.mk.inj h
    exact absurd hq (not_quiet_tell .refl _ _ _)
  | succ depth ih =>
    have hn : b.SpeaksUp good (b.expr depth) :=
      ⟨accounts_expr, fun hb h => checked_expr hp hb h, ih⟩
    exact (node_run h).hasErrors_of_quiet hp hn hb hw hq

/-- **Where a text has a failure, there is a diagnostic.** The failure may be a mark or the error
type, on any part of what the text is bound to; the diagnostic is one of the reader or of the
binder. -/
theorem reported_of_failure {text : String} (ha : b.arena = (parse text).arena)
    (hb : b.AllGood (fun t ty => ¬ t.Mentions .error ty) s.types) {c : BoundExpr}
    (hc : c.PartOf (b.bind (some (parse text).root) s).1)
    (hf : c.hasErrors = true ∨ c.ty? = some .error) :
    (parse text).problems ≠ [] ∨
      (b.bind (some (parse text).root) s).2.bag.entries ≠ s.bag.entries := by
  by_contra hsilent
  rw [not_or, not_not, not_not] at hsilent
  -- Suppose that neither said anything: then the tree is whole, and the binder was quiet on it.
  obtain ⟨hread, hquiet⟩ := hsilent
  have hwhole : b.arena.Whole (some (parse text).root) := by
    rw [ha]
    exact (isWhole_parse hread).whole_layOut {}
  have hmark := hasErrors_of_quiet proper_not_mentions hb hwhole rfl hquiet
  have hclean := (checked_expr proper_not_mentions hb rfl hmark).clean
  obtain ⟨hcf, hcty⟩ := hclean c hc
  rcases hf with hf | hf
  · rw [hcf] at hf
    cases hf
  · exact proper_not_mentions.error _ (hcty _ hf)

/-- An update of a member that is not there fails, and this is reported. -/
theorem reported_of_missing_member :
    (parse "d with { Y = 1 }").problems ≠ [] ∨
      ((copyBinder "d with { Y = 1 }").bind (some (parse "d with { Y = 1 }").root)
        copyState).2.bag.entries ≠ copyState.bag.entries :=
  reported_of_failure rfl (allGood_copyBinder proper_not_mentions _) .refl
    (.inl (by decide +kernel))

end Quiet

end Binder

end UpdateExpr
