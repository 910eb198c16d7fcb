import UpdateExpr.Proofs.Bound.Checked
import UpdateExpr.Proofs.Bound.NodeRun
import UpdateExpr.Syntax.Parser

/-!
# Binding is sound

An expression that binding does not mark as faulty is well typed, down to its last part. Updates
put together what was shown of values and members: the clone method is a member that is called, the
target of an initializer is a member that is assigned to, and its value is one that is converted.
Down the nodes of an arena, the induction is on the depth that is left.

## Main results

* `Binder.UpdateRun.checked`: updates
* `Binder.checked_expr`: every expression is bound so, down to any depth
* `Binder.typed_of_value`: an unmarked value is well typed, with all of its parts
-/

namespace UpdateExpr

namespace Binder

variable {b : Binder} {good : TypeTable → TypeId → Prop} {s s' : BindState}
  {e e' receiver : BoundExpr} {node : NodeRef} {name : String} {ty : TypeId}
  {c : Candidate} {m : Member} {nested : NodeRef → BindM BoundExpr}

/-! ## Updates -/

section Updates

variable {copy : BoundExpr} {choice : CloneChoice} {init : BoundInitializer}

/-- A clone method without doubt is usable, takes nothing, and returns what the receiver is. -/
theorem CloneRun.checked (hp : TypeTable.Proper good) (hb : b.AllGood good s.types)
    (h : b.CloneRun ty s choice s') (hty : good s.types ty) (hf : choice.failed = false) :
    Grows good s.types s'.types ∧ ∃ c m, choice = { method? := some c } ∧ good s'.types c.ty ∧
      m.name = cloneName ∧ m.isMethod = true ∧ m.parameters = [] ∧
      (Known good → b.Usable s'.types ty c m ∧
        Answers (b.symbols.derivesFrom .ignoreNull ty c.ty) s'.types true) := by
  cases h with
  | faulty he => exact absurd (he ▸ hty) (hp.error _)
  | absent _ _ _ => cases hf
  | doubtful _ _ _ _ _ => cases hf
  | @chosen l q c others q' hne hl hv hpar hd =>
    obtain ⟨hgrow₁, -, hall⟩ := finds_of_lookup hp hb.symbols hty hl hv
    have hmem : c ∈ l.candidates ∧ c.params = [] := by
      have hc : c ∈ l.parameterless := by rw [hpar]; simp
      obtain ⟨hc, he⟩ := List.mem_filter.1 hc
      exact ⟨hc, List.isEmpty_iff.1 he⟩
    obtain ⟨m, hm⟩ := hall c hmem.1
    have hsteady := steady_derivesFrom (q := { types := q.types }) hp.toHereditary
      (hb.grow hgrow₁).symbols (hgrow₁.keep hty) hm.ty .ignoreNull
    have hgrow₂ := hsteady.grows
    have hans := hsteady.answers
    rw [hd] at hgrow₂ hans
    refine ⟨hgrow₁.trans hgrow₂, c, m, rfl, hgrow₂.keep hm.ty, hm.admits.name,
      hm.admits.isMethod rfl, hm.params.1 hmem.2, fun hk => ⟨?_, hans hk⟩⟩
    exact (Usable.of_finds hk hm).mono ⟨hgrow₂.le, .inr hk⟩ (hgrow₁.keep hty)

theorem ReceiverRun.checked (hn : b.ChecksNested good nested) (hb : b.AllGood good s.types)
    (h : b.ReceiverRun nested node s e ty s') (hf : e.hasErrors = false) :
    Grows good s.types s'.types ∧ b.Sound good s'.types e ∧ e.ty? = some ty ∧ ty ≠ .void := by
  cases h with
  | typed ho ht hv =>
    obtain ⟨hgrow, hsound⟩ := ho.checked hn hb hf
    exact ⟨hgrow, hsound, ht, hv⟩
  | refused _ =>
    rw [BoundExpr.hasErrors_addErrors, Bool.or_true] at hf
    cases hf

/-- A member that may be assigned to in an initializer is settable there. -/
theorem isSettable_of_objection? (hm : b.symbols.member? c.member = some m) {info : BoundInfo}
    (h : (m.isField = true ∧ b.objection? true (.field info receiver c.member) = none) ∨
      (m.isField = false ∧ m.isMethod = false ∧
        b.objection? true (.property info receiver c.member) = none)) :
    m.isSettable true = true := by
  rcases h with ⟨hf, ho⟩ | ⟨hf, hmeth, ho⟩
  · refine Member.isSettable_mono ?_
    cases hset : m.isSettable false with
    | true => rfl
    | false => simp [objection?, hm, hset] at ho
  · unfold Member.isSettable
    unfold Member.isField at hf
    unfold Member.isMethod at hmeth
    cases hs : m.shape with
    | field _ _ => simp [hs] at hf
    | method _ _ _ => simp [hs] at hmeth
    | property _ setter =>
      cases setter with
      | absent => simp [objection?, hm, hs, setterObjection?] at ho
      | always => rfl
      | initOnly => rfl

theorem good_placeholder {t : TypeTable} {i : BoundInfo} (hi : i.ty? = some ty)
    (hty : good t ty) : ∀ ty' ∈ (BoundExpr.placeholder i).ty?, good t ty' := by
  intro ty' hty'
  obtain rfl : ty = ty' := Option.some.inj (hi.symm.trans hty')
  exact hty

/-- The target of an initializer without the mark is a settable member of the copy. -/
theorem target_checked (hp : TypeTable.Proper good) (hb : b.AllGood good s.types)
    {i : BoundInfo} (hi : i.ty? = some ty) (hty : good s.types ty) {s₁ : BindState}
    (hm : b.MemberRun node (.placeholder i) name 0 false s e s₁)
    (ha : b.AssignRun true e s₁ e' s') (hf : e'.hasErrors = false) :
    Grows good s.types s'.types ∧ ∃ c m, e'.symbol? = some c.member ∧ e'.ty? = some c.ty ∧
      good s'.types c.ty ∧ m.isSettable true = true ∧
      (Known good → b.Usable s'.types ty c m) := by
  cases ha with
  | faulty h => rw [h] at hf; cases hf
  | refused _ _ _ => cases hf
  | accepted _ ho =>
    obtain ⟨hgrow, ty', c, cs, hty', he, hall⟩ :=
      hm.finds hp hb (good_placeholder hi hty) (.inl hf)
    obtain rfl : ty = ty' := Option.some.inj (hi.symm.trans hty')
    obtain ⟨m, hfound⟩ := hall c (by simp)
    refine ⟨hgrow, c, m, ?_⟩
    rcases access_cases node (.placeholder i) e.hasErrors cs hfound.found with
      ⟨hfield, -, ha⟩ | ⟨hfield, hmeth, ha⟩ | ⟨-, ha⟩
    · rw [he, ha] at ho ⊢
      exact ⟨rfl, rfl, hfound.ty, isSettable_of_objection? hfound.found (.inl ⟨hfield, ho⟩),
        fun hk => .of_finds hk hfound⟩
    · rw [he, ha] at ho ⊢
      exact ⟨rfl, rfl, hfound.ty,
        isSettable_of_objection? hfound.found (.inr ⟨hfield, hmeth, ho⟩),
        fun hk => .of_finds hk hfound⟩
    · rw [he, ha] at ho
      cases ho

theorem InitializerRun.checked (hp : TypeTable.Proper good) (hn : b.ChecksNested good nested)
    (hb : b.AllGood good s.types) {i : BoundInfo} (hi : i.ty? = some ty) (hty : good s.types ty)
    (h : b.InitializerRun nested (.placeholder i) node s init s') (hf : init.failed = false) :
    Grows good s.types s'.types ∧ b.Sound good s'.types init.value ∧
      (Known good → b.Sets s'.types ty (init.member?, init.value)) := by
  cases h with
  | other _ => cases hf
  | bare _ _ ho =>
    obtain ⟨hgrow, hsound⟩ := ho.checked hn hb hf
    exact ⟨hgrow, hsound, fun _ => nofun⟩
  | @named _ _ t s₁ t' s₂ v s₃ v' s' _ _ hm ha ho hfit =>
    obtain ⟨ht', hv'⟩ := Bool.or_eq_false_iff.1 hf
    obtain ⟨hgrow₁, c, m, hsym, htarget, hcty, hset, hu⟩ := target_checked hp hb hi hty hm ha ht'
    have hb₁ := hb.grow hgrow₁
    cases hfit with
    | kept hkept =>
      rcases hkept with hmark | husable
      · rw [ht'] at hmark
        cases hmark
      · have hne : c.ty ≠ .error := fun h => hp.error _ (h ▸ hcty)
        simp [BoundExpr.hasUsableType, htarget, TypeId.isError, hne] at husable
    | @converted fitTy _ _ _ hfty hferr hconv =>
      obtain rfl : c.ty = fitTy := Option.some.inj (htarget.symm.trans hfty)
      obtain ⟨hgrow₂, hv⟩ := ho.checked hn hb₁ (hconv.operand_hasErrors hv')
      obtain ⟨hgrow₃, hsound, hans⟩ :=
        hconv.checked hp (hb₁.grow hgrow₂) hv (hgrow₂.keep hcty) hv'
      have hgrow := hgrow₂.trans hgrow₃
      refine ⟨hgrow₁.trans hgrow, hsound, fun hk id hid => ?_⟩
      obtain rfl : c.member = id := Option.some.inj (hsym.symm.trans hid)
      obtain ⟨source, hsource, ha⟩ := hans hk
      have hu' := (hu hk).mono ⟨hgrow.le, .inr hk⟩ (hgrow₁.keep hty)
      exact ⟨c, m, source, rfl, hu', hset, hsource, ha⟩

theorem InitializersRun.checked (hp : TypeTable.Proper good) (hn : b.ChecksNested good nested)
    {i : BoundInfo} (hi : i.ty? = some ty) {nodes : List NodeRef} {inits : List BoundInitializer}
    (hb : b.AllGood good s.types) (hty : good s.types ty)
    (h : b.InitializersRun nested (.placeholder i) nodes s inits s')
    (hf : inits.any (·.failed) = false) :
    Grows good s.types s'.types ∧ ∀ init ∈ inits, b.Sound good s'.types init.value ∧
      (Known good → b.Sets s'.types ty (init.member?, init.value)) := by
  generalize hcopy : BoundExpr.placeholder i = copy at h
  induction h with
  | nil => exact ⟨.refl, nofun⟩
  | @cons _ _ s s₁ s' init inits hinit _ ih =>
    subst hcopy
    obtain ⟨hf₁, hf₂⟩ := Bool.or_eq_false_iff.1 (List.any_cons ▸ hf)
    obtain ⟨hgrow₁, hsound, hsets⟩ := hinit.checked hp hn hb hi hty hf₁
    obtain ⟨hgrow₂, hrest⟩ := ih (hb.grow hgrow₁) (hgrow₁.keep hty) hf₂
    refine ⟨hgrow₁.trans hgrow₂, List.forall_mem_cons.2 ⟨⟨hsound.grow hp hgrow₂, ?_⟩, hrest⟩⟩
    intro hk
    exact (hsets hk).mono ⟨hgrow₂.le, .inr hk⟩ (hgrow₁.keep hty)

theorem UpdateRun.checked (hp : TypeTable.Proper good) (hn : b.ChecksNested good nested)
    (hb : b.AllGood good s.types) (h : b.UpdateRun nested node s e s')
    (hf : e.hasErrors = false) : b.Checked good e s s' := by
  cases h with
  | other _ => cases hf
  | @intro _ _ _ r ty s₁ clone s₂ inits s' copyTy failed _ hr hc hcopy hi hfailed =>
    have hf' : failed = false := hf
    rw [hfailed, Bool.or_eq_false_iff, Bool.or_eq_false_iff] at hf'
    obtain ⟨⟨hfr, hfc⟩, hfi⟩ := hf'
    obtain ⟨hgrow₁, hrecv, hrty, hvoid⟩ := hr.checked hn hb hfr
    have hb₁ := hb.grow hgrow₁
    obtain ⟨hgrow₂, c, m, rfl, hcty, hname, hmeth, hpar, hclone⟩ :=
      hc.checked hp hb₁ (hrecv.good_ty hrty) hfc
    have hcopy' : copyTy = c.ty := hcopy
    subst hcopy'
    obtain ⟨hgrow₃, hinits⟩ := hi.checked hp hn rfl (hb₁.grow hgrow₂) hcty hfi
    have hgrow := hgrow₂.trans hgrow₃
    refine .of_sound (hgrow₁.trans hgrow) (.intro hf ?_ (fun hk => ?_) ?_)
    · rintro _ ⟨⟩
      exact hgrow₃.keep hcty
    · have hff : failed = false := hf
      obtain ⟨hu, hd⟩ := hclone hk
      have hu' := hu.mono ⟨hgrow₃.le, .inr hk⟩ (hgrow₂.keep (hrecv.good_ty hrty))
      rw [hff]
      refine .update hrty hvoid hu' hname hmeth hpar (hd.mono hgrow₃.le) ?_
      rintro entry hentry
      obtain ⟨init, hinit, rfl⟩ := List.mem_map.1 hentry
      exact (hinits init hinit).2 hk
    · intro d hd
      rcases List.mem_cons.1 hd with rfl | hd
      · exact hrecv.grow hp hgrow
      · rw [List.map_map] at hd
        obtain ⟨init, hinit, rfl⟩ := List.mem_map.1 hd
        exact (hinits init hinit).1

end Updates

/-! ## Nodes -/

section Nodes

/-- A value without parts is sound, if it is typed so. -/
theorem Sound.leaf {t : TypeTable} (hf : e.hasErrors = false) (hty : ∀ ty ∈ e.ty?, good t ty)
    (ht : b.Typed t e) (hc : e.children = []) : b.Sound good t e :=
  .intro hf hty (fun _ => ht) (by simp [hc])

theorem good_ty?_constant (hp : TypeTable.Proper good) (t : TypeTable) (value : Constant) :
    ∀ ty ∈ value.ty?, good t ty := by
  intro ty hty
  cases value with
  | int _ => cases hty; exact hp.intrinsic t .int nofun
  | long _ => cases hty; exact hp.intrinsic t .long nofun
  | double _ => cases hty; exact hp.intrinsic t .double nofun
  | text _ => cases hty; exact hp.intrinsic t .string nofun
  | bool _ => cases hty; exact hp.intrinsic t .bool nofun
  | null => cases hty

theorem sound_constant (hp : TypeTable.Proper good) (t : TypeTable) (node : NodeRef)
    (value : Constant) : b.Sound good t (.literal ⟨node, value.ty?, false⟩ value) :=
  .leaf rfl (good_ty?_constant hp t value) (.literal value) rfl

theorem NodeRun.checked (hp : TypeTable.Proper good) (hn : b.ChecksNested good nested)
    (hb : b.AllGood good s.types) (h : b.NodeRun nested node s e s') (hf : e.hasErrors = false) :
    b.Checked good e s s' := by
  cases h with
  | lacking _ | stray _ _ _ | unknown _ => cases hf
  | truth value => exact .of_sound .refl (sound_constant hp s.types node (.bool value))
  | null => exact .of_sound .refl (sound_constant hp s.types node .null)
  | @literal value _ _ _ =>
    refine .of_sound .refl ?_
    cases value with
    | int v => exact sound_constant hp s.types node (.int v)
    | long v => exact sound_constant hp s.types node (.long v)
    | double v => exact sound_constant hp s.types node (.double v)
    | text v => exact sound_constant hp s.types node (.text v)
    | invalid => cases hf
  | localVar hv =>
    refine .of_sound .refl (.leaf rfl ?_ (.localVar hv) rfl)
    rintro _ ⟨⟩
    exact hb.locals hv
  | access _ h => exact h.checked hp hn hb hf
  | call _ h => exact h.checked hp hn hb hf
  | paren _ h => exact hn hb h hf
  | update _ h => exact h.checked hp hn hb hf

/-- **Every expression is bound so**, down to any depth. -/
theorem checked_expr (hp : TypeTable.Proper good) {depth : Nat} (hb : b.AllGood good s.types)
    (h : b.expr depth node s = (e, s')) (hf : e.hasErrors = false) : b.Checked good e s s' := by
  induction depth generalizing node s e s' with
  | zero =>
    obtain ⟨rfl, rfl⟩ := Prod.mk.inj h
    cases hf
  | succ depth ih => exact (node_run h).checked hp ih hb hf

theorem proper_not_mentions : TypeTable.Proper fun t ty => ¬ t.Mentions .error ty where
  toHereditary := TypeTable.hereditary_not_mentions (k := .error) nofun
  intrinsic _ _ hk := TypeTable.not_mentions_id hk
  error _ h := h .here

theorem proper_interned_not_mentions :
    TypeTable.Proper fun t ty => t.Interned ty ∧ ¬ t.Mentions .error ty where
  toHereditary := TypeTable.hereditary_interned.and proper_not_mentions.toHereditary
  intrinsic t k hk := ⟨.intro (TypeTable.shape?_id t k) nofun, proper_not_mentions.intrinsic t k hk⟩
  error t h := proper_not_mentions.error t h.2

/-- **An unmarked value is well typed, with all of its parts**, as the table in the end has it. -/
theorem typed_of_value {b : Binder} {node : NodeRef} {s : BindState}
    (hb : b.AllGood (fun t ty => t.Interned ty ∧ ¬ t.Mentions .error ty) s.types)
    (hf : (b.value .read node s).1.hasErrors = false) :
    ∀ c : BoundExpr, c.PartOf (b.value .read node s).1 →
      b.Typed (b.value .read node s).2.types c := by
  have ho : b.OperandRun (b.expr b.options.maxDepth) node s _ _ := operand_run rfl
  have hn : b.ChecksNested _ (b.expr b.options.maxDepth) :=
    fun hb h => checked_expr proper_interned_not_mentions hb h
  obtain ⟨-, hsound⟩ := ho.checked hn hb hf
  exact fun c hc => (hsound c hc).2.2 And.left

/-- A class with a property and a method that copies. -/
def copyTable : SymbolTable where
  definitions := #[{ name := "D", members := [⟨0⟩, ⟨1⟩] }]
  members := #[
    { owner := ⟨0⟩, name := "X", shape := .property Intrinsic.int.id .always },
    { owner := ⟨0⟩, name := cloneName, shape := .method [] (TypeTable.plain ⟨0⟩ {}).1 0 }]

/-- A text about a variable of that class. -/
def copyBinder (text : String) : Binder where
  arena := (parse text).arena
  symbols := copyTable
  scope := { locals := [("d", ⟨⟨0⟩, (TypeTable.plain ⟨0⟩ {}).1⟩)], declared := 1 }

/-- The types with that class. -/
def copyState : BindState :=
  ⟨(TypeTable.plain ⟨0⟩ {}).2, { file := "w.wex" }⟩

theorem allGood_copyBinder (hp : TypeTable.Proper good) (text : String) :
    (copyBinder text).AllGood good copyState.types := by
  have hint : good copyState.types Intrinsic.int.id := hp.intrinsic copyState.types .int nofun
  have hclass : good copyState.types (TypeTable.plain ⟨0⟩ {}).1 := hp.intern nofun nofun
  have hdefinition : ∀ {d c}, copyTable.definition? d = some c →
      c.base? = none ∧ c.interfaces = [] := by
    rintro ⟨_ | n⟩ c hc
    · cases hc
      exact ⟨rfl, rfl⟩
    · cases hc
  have hmember : ∀ {m member}, copyTable.member? m = some member →
      good copyState.types member.valueType ∧ member.parameters = [] := by
    rintro ⟨_ | _ | n⟩ member hm
    · cases hm
      exact ⟨hint, rfl⟩
    · cases hm
      exact ⟨hclass, rfl⟩
    · cases hm
  constructor
  · intro ty hty
    cases hty with
    | base h hb => rw [(hdefinition h).1] at hb; cases hb
    | interface h hi => rw [(hdefinition h).2] at hi; cases hi
    | parameter h hi => rw [(hmember h).2] at hi; cases hi
    | value h => exact (hmember h).1
  · intro name v hv
    obtain ⟨p, hp, rfl⟩ := Option.map_eq_some_iff.1 hv
    rw [List.mem_singleton.1 (List.mem_of_find?_eq_some hp)]
    exact hclass

/-- An update that sets the property is bound without the mark, and well typed. -/
theorem typed_of_copy :
    ((copyBinder "d with { X = 1 }").value .read (some (parse "d with { X = 1 }").root)
      copyState).1.hasErrors = false ∧
    ∀ c : BoundExpr, c.PartOf ((copyBinder "d with { X = 1 }").value .read
        (some (parse "d with { X = 1 }").root) copyState).1 →
      (copyBinder "d with { X = 1 }").Typed ((copyBinder "d with { X = 1 }").value .read
        (some (parse "d with { X = 1 }").root) copyState).2.types c := by
  have hf : ((copyBinder "d with { X = 1 }").value .read (some (parse "d with { X = 1 }").root)
      copyState).1.hasErrors = false := by
    decide +kernel
  exact ⟨hf, typed_of_value (allGood_copyBinder proper_interned_not_mentions _) hf⟩

end Nodes

end Binder

end UpdateExpr
