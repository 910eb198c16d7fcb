import UpdateExpr.Proofs.Bound.UseRun
import UpdateExpr.Proofs.Bound.Typed

/-!
# Values and members without a mark

A rule that hands back an expression without the mark had unmarked parts to begin with, so these are
sound, and what the rule asked of the symbols has an answer that stays. Here this is shown of values
that are read and converted, of members, and of calls.

## Where the mark is not the mark of the parts

A group of methods is no value, and is marked by the notes of its lookup; the call that is made of
it forgets that mark. So nothing is said of groups themselves. What a call needs of its group is
read off the lookup, and what is sound is the receiver.

## Main definitions

* `Binder.AllGood`: the types of the symbols and of the scope have a property
* `Binder.Checked`: an unmarked value is sound

## Main results

* `Binder.ConvertRun.checked`: a conversion of a sound expression
* `Binder.MemberRun.finds`: what is found behind a receiver
* `Binder.AccessRun.checked`, `Binder.CallRun.checked`: members and calls
-/

namespace UpdateExpr

namespace Binder

/-- The types of the symbols and of the local variables have a property. -/
structure AllGood (b : Binder) (good : TypeTable → TypeId → Prop) (t : TypeTable) : Prop where
  symbols : b.symbols.AllGood good t
  locals : ∀ {name v}, b.scope.lookup? name = some v → good t v.ty

/-- An expression without the mark has left a grown table, has no marked part, and is sound if it
is a value. -/
structure Checked (b : Binder) (good : TypeTable → TypeId → Prop) (e : BoundExpr)
    (s s' : BindState) : Prop where
  grows : Grows good s.types s'.types
  clean : Clean good s'.types e
  sound : (∀ info receiver methods, e ≠ .methodGroup info receiver methods) →
    b.Sound good s'.types e

/-- The rule for nested expressions gives checked ones. -/
def ChecksNested (b : Binder) (good : TypeTable → TypeId → Prop)
    (nested : NodeRef → BindM BoundExpr) : Prop :=
  ∀ {node s e s'}, b.AllGood good s.types → nested node s = (e, s') → e.hasErrors = false →
    b.Checked good e s s'

variable {b : Binder} {good : TypeTable → TypeId → Prop} {s s' : BindState}
  {e e' receiver : BoundExpr} {node target : NodeRef} {name : String} {ty : TypeId}
  {invoked : Bool} {c : Candidate} {m : Member} {nested : NodeRef → BindM BoundExpr}

theorem AllGood.grow {t t' : TypeTable} (h : b.AllGood good t) (hgrow : Grows good t t') :
    b.AllGood good t' where
  symbols := h.symbols.grow hgrow
  locals hv := hgrow.keep (h.locals hv)

theorem Checked.of_sound (hgrow : Grows good s.types s'.types) (h : b.Sound good s'.types e) :
    b.Checked good e s s' :=
  ⟨hgrow, h.clean, fun _ => h⟩

/-! ## Values -/

section Values

/-- A conversion that was looked for is the one between the types, or that of `null`; an expression
without a type is left as it is. -/
theorem ConversionRun.checked (hp : TypeTable.Proper good) (hb : b.AllGood good s.types)
    {conversion : Conversion} {faulty : Bool}
    (h : b.ConversionRun e ty s conversion faulty s') (he : ∀ ty ∈ e.ty?, good s.types ty)
    (hty : good s.types ty) :
    Grows good s.types s'.types ∧
      ((e.isNull = true ∧ conversion = .ofNull s'.types ty) ∨ (e.isNull = false ∧ e.ty? = none) ∨
        ∃ source, e.ty? = some source ∧
          (Known good → Answers (b.symbols.classify source ty) s'.types conversion)) := by
  cases h with
  | null hn => exact ⟨.refl, .inl ⟨hn, rfl⟩⟩
  | typeless hn ht => exact ⟨.refl, .inr (.inl ⟨hn, ht⟩)⟩
  | @classified source conversion q hn ht hc =>
    have hs := steady_classify (q := { types := s.types }) hp.toHereditary hb.symbols
      (he source ht) hty
    have hgrow := hs.grows
    have hans := hs.answers
    rw [hc] at hgrow hans
    rw [BindState.types_tellNotes, BindState.types_withTypes]
    exact ⟨hgrow, .inr (.inr ⟨source, ht, hans⟩)⟩

theorem ofNull_ne_identity (t : TypeTable) (ty : TypeId) : Conversion.ofNull t ty ≠ .identity := by
  unfold Conversion.ofNull
  split <;> exact nofun

theorem Typed.isNull_of_ty?_eq_none {t : TypeTable} (h : b.Typed t e) (ht : e.ty? = none) :
    e.isNull = true := by
  cases h with
  | literal value =>
    cases value with
    | null => rfl
    | _ => cases ht
  | _ => cases ht

/-- A sound expression that is brought to a type without getting a mark is sound, and its own type
is the type that was wanted, but for `null` of references. -/
theorem ConvertRun.checked (hp : TypeTable.Proper good) (hb : b.AllGood good s.types)
    (h : b.ConvertRun e ty s e' s') (he : b.Sound good s.types e) (hty : good s.types ty)
    (hf : e'.hasErrors = false) :
    Grows good s.types s'.types ∧ b.Sound good s'.types e' ∧
      (Known good → ∃ source, e'.ty? = some source ∧
        Answers (b.symbols.classify source ty) s'.types .identity) := by
  have hgood : ∀ ty ∈ e.ty?, good s.types ty := fun ty h => he.good_ty h
  cases h with
  | @same faulty _ hc =>
    obtain ⟨hgrow, hcases⟩ := hc.checked hp hb hgood hty
    obtain ⟨-, rfl⟩ := Bool.or_eq_false_iff.1 ((BoundExpr.hasErrors_addErrors e faulty) ▸ hf)
    rw [BoundExpr.addErrors_false]
    refine ⟨hgrow, he.grow hp hgrow, fun hk => ?_⟩
    rcases hcases with ⟨-, hnull⟩ | ⟨hn, ht⟩ | ⟨source, hsource, hans⟩
    · exact absurd hnull.symm (ofNull_ne_identity _ _)
    · simp [(he.typed hk).isNull_of_ty?_eq_none ht] at hn
    · exact ⟨source, hsource, hans hk⟩
  | @implicit conversion faulty _ hc hi hk =>
    obtain ⟨hgrow, hcases⟩ := hc.checked hp hb hgood hty
    obtain ⟨he', rfl⟩ := Bool.or_eq_false_iff.1 hf
    rw [he', Bool.or_false]
    refine ⟨hgrow, Sound.intro rfl ?_ (fun hk' => ?_) ?_, fun _ => ⟨ty, rfl, fun q _ => ?_⟩⟩
    · rintro _ ⟨⟩
      exact hgrow.keep hty
    · rcases hcases with ⟨hn, rfl⟩ | ⟨hn, ht⟩ | ⟨source, hsource, hans⟩
      · have hnull : Conversion.ofNull s'.types ty = .nullLiteral := by
          unfold Conversion.ofNull at hk ⊢
          split at hk
          · next hcond => rw [if_pos hcond]
          · cases hk
        rw [hnull]
        exact .nullConversion hn hnull
      · simp [(he.typed hk').isNull_of_ty?_eq_none ht] at hn
      · exact .conversion hsource (hans hk') hk
    · intro d hd
      rw [List.mem_singleton.1 hd]
      exact he.grow hp hgrow
    · rw [SymbolTable.classify_self]
      exact ⟨rfl, rfl⟩
  | refused issue args hc hk _ => cases hf

theorem OperandRun.checked (hn : b.ChecksNested good nested) (hb : b.AllGood good s.types)
    (h : b.OperandRun nested node s e s') (hf : e.hasErrors = false) :
    Grows good s.types s'.types ∧ b.Sound good s'.types e := by
  obtain ⟨ho, hr⟩ := h
  cases hr with
  | value hvalue =>
    have hchecked := hn hb ho hf
    exact ⟨hchecked.grows, hchecked.sound hvalue⟩
  | group _ _ => cases hf

end Values

/-! ## Members -/

section Members

/-- The members that a usable outcome of a lookup holds. -/
theorem finds_of_lookup (hp : TypeTable.Proper good) {t : TypeTable} {query : LookupQuery}
    {l : Lookup} {q : QueryState} (hs : b.symbols.AllGood good t) (hty : good t ty)
    (hl : b.symbols.lookup ty query { types := t } = (l, q)) (hv : l.isViable = true) :
    Grows good t q.types ∧ l.candidates ≠ [] ∧
      ∀ c ∈ l.candidates, ∃ m, query.Finds b.symbols good q.types ty c m := by
  have hsteady : Steady good (b.symbols.lookup ty query) (b.symbols.lookup ty query)
      ({ types := t } : QueryState) _ := steady_lookup hp.toHereditary hs hty
  have hgrow := hsteady.grows
  have hpost := hsteady.post
  rw [hl] at hgrow hpost
  exact ⟨hgrow, hpost hv⟩

/-- A name behind a receiver that gives an unmarked expression, or a group of methods, was found. -/
theorem MemberRun.finds (hp : TypeTable.Proper good) (hb : b.AllGood good s.types)
    (h : b.MemberRun node receiver name 0 invoked s e s')
    (hr : ∀ ty ∈ receiver.ty?, good s.types ty)
    (hok : e.hasErrors = false ∨ ∃ i r ms, e = .methodGroup i r ms) :
    Grows good s.types s'.types ∧ ∃ ty c cs, receiver.ty? = some ty ∧
      e = b.access node receiver e.hasErrors (c :: cs) ∧
      ∀ c' ∈ c :: cs, ∃ m, (b.query name 0 invoked).Finds b.symbols good s'.types ty c' m := by
  have hbad : ∀ cs es, e ≠ .failure node cs es := by
    rintro cs es rfl
    rcases hok with hf | ⟨i, r, ms, he⟩
    · cases hf
    · cases he
  cases h with
  | typeless args ht => exact absurd rfl (hbad _ _)
  | faulty ht => exact absurd rfl (hbad _ _)
  | missing issue args ht he hl _ => exact absurd rfl (hbad _ _)
  | @found ty l q ht he hl hv =>
    obtain ⟨hgrow, hne, hall⟩ := finds_of_lookup hp hb.symbols (hr ty ht) hl hv
    rw [BindState.types_tellNotes, BindState.types_withTypes, hasErrors_access]
    obtain ⟨c, cs, hcs⟩ := List.exists_cons_of_ne_nil hne
    rw [hcs] at hall ⊢
    exact ⟨hgrow, ty, c, cs, ht, rfl, hall⟩

/-- What is found may be named. -/
theorem Usable.of_finds {t : TypeTable} (hk : Known good)
    (h : (b.query name 0 invoked).Finds b.symbols good t ty c m) : b.Usable t ty c m where
  offers := h.offers hk
  isStatic := h.admits.isStatic rfl
  arity := h.admits.arity

/-- Usable members are a field, a property or a group, as the first of them is. -/
theorem access_cases (node : NodeRef) (receiver : BoundExpr) (faulty : Bool) (cs : List Candidate)
    (hm : b.symbols.member? c.member = some m) :
    (m.isField = true ∧ m.isMethod = false ∧ b.access node receiver faulty (c :: cs) =
      .field ⟨node, some c.ty, faulty⟩ receiver c.member) ∨
    (m.isField = false ∧ m.isMethod = false ∧ b.access node receiver faulty (c :: cs) =
      .property ⟨node, some c.ty, faulty⟩ receiver c.member) ∨
    (m.isMethod = true ∧ b.access node receiver faulty (c :: cs) =
      .methodGroup ⟨node, none, faulty⟩ receiver (c :: cs)) := by
  cases hs : m.shape with
  | field _ _ => simp [access, Member.isField, Member.isMethod, hm, hs]
  | property _ _ => simp [access, Member.isField, Member.isMethod, hm, hs]
  | method _ _ _ => simp [access, Member.isField, Member.isMethod, hm, hs]

/-- What is found behind a sound receiver is clean, and if it is a value, it is sound. -/
theorem sound_access {t : TypeTable} (node : NodeRef) (cs : List Candidate)
    (hr : receiver.ty? = some ty) (hreceiver : b.Sound good t receiver)
    (hm : (b.query name 0 invoked).Finds b.symbols good t ty c m) :
    Clean good t (b.access node receiver false (c :: cs)) ∧
      ((∀ i r ms, b.access node receiver false (c :: cs) ≠ .methodGroup i r ms) →
        b.Sound good t (b.access node receiver false (c :: cs))) := by
  have hchildren : ∀ d ∈ [receiver], b.Sound good t d := by
    intro d hd
    rw [List.mem_singleton.1 hd]
    exact hreceiver
  have hty : ∀ ty ∈ some c.ty, good t ty := by
    rintro _ ⟨⟩
    exact hm.ty
  rcases access_cases node receiver false cs hm.found with ⟨hf, -, he⟩ | ⟨hf, hmeth, he⟩ | ⟨-, he⟩
  · rw [he]
    have h : b.Sound good t (.field ⟨node, some c.ty, false⟩ receiver c.member) :=
      .intro rfl hty (fun hk => .field hr (.of_finds hk hm) hf) hchildren
    exact ⟨h.clean, fun _ => h⟩
  · rw [he]
    have h : b.Sound good t (.property ⟨node, some c.ty, false⟩ receiver c.member) :=
      .intro rfl hty (fun hk => .property hr (.of_finds hk hm) hf hmeth) hchildren
    exact ⟨h.clean, fun _ => h⟩
  · rw [he]
    refine ⟨.intro rfl nofun fun d hd => (hchildren d hd).clean, fun hvalue => ?_⟩
    exact absurd rfl (hvalue _ _ _)

/-- The node of an expression is of no matter to its type. -/
theorem Sound.setNode {t : TypeTable} (h : b.Sound good t e) (node : NodeRef) :
    b.Sound good t (e.setNode node) := by
  refine .intro (by simp [h.hasErrors]) ?_ (fun hk => ?_) ?_
  · rw [BoundExpr.ty?_setNode]
    exact fun ty hty => h.good_ty hty
  · have ht := h.typed hk
    cases ht with
    | literal value => exact .literal value
    | localVar hv => exact .localVar hv
    | field hr hu hf => exact .field hr hu hf
    | property hr hu hf hm => exact .property hr hu hf hm
    | call hr hu hm hpar => exact .call hr hu hm hpar
    | conversion ho hc hk => exact .conversion ho hc hk
    | nullConversion hn hc => exact .nullConversion hn hc
    | update hr hv hu hn hm hpar hd he => exact .update hr hv hu hn hm hpar hd he
  · rw [BoundExpr.setNode, BoundExpr.children_setInfo]
    exact fun d hd => h.child hd

theorem Clean.setNode {t : TypeTable} (h : Clean good t e) (node : NodeRef) :
    Clean good t (e.setNode node) := by
  obtain ⟨⟨he, hty⟩, hd⟩ := BoundExpr.forall_partOf.1 h
  refine .intro ?_ ?_ ?_
  · rw [BoundExpr.hasErrors_setNode]
    exact he
  · rw [BoundExpr.ty?_setNode]
    exact hty
  · rw [BoundExpr.setNode, BoundExpr.children_setInfo]
    exact hd

theorem AccessRun.checked (hp : TypeTable.Proper good) (hn : b.ChecksNested good nested)
    (hb : b.AllGood good s.types) (h : b.AccessRun nested node invoked s e s')
    (hf : e.hasErrors = false) : b.Checked good e s s' := by
  cases h with
  | other _ => cases hf
  | nameless _ _ _ => cases hf
  | @named _ nameNode r s₁ e _ hs ho hname hm =>
    rw [BoundExpr.hasErrors_setNode] at hf
    obtain ⟨hgrow₁, hr⟩ := ho.checked hn hb (hm.receiver_hasErrors hf)
    obtain ⟨hgrow₂, ty, c, cs, hty, he, hall⟩ :=
      hm.finds hp (hb.grow hgrow₁) (fun ty h => hr.good_ty h) (.inl hf)
    obtain ⟨m, hfound⟩ := hall c (by simp)
    rw [hf] at he
    obtain ⟨hclean, hsound⟩ := sound_access nameNode cs hty (hr.grow hp hgrow₂) hfound
    rw [← he] at hclean hsound
    refine ⟨hgrow₁.trans hgrow₂, hclean.setNode node, fun hvalue => (hsound ?_).setNode node⟩
    rintro i r ms rfl
    exact hvalue _ _ _ rfl

/-- A call that is not marked has a receiver that is not, and a method that was found. -/
theorem CallRun.checked (hp : TypeTable.Proper good) (hn : b.ChecksNested good nested)
    (hb : b.AllGood good s.types) (h : b.CallRun nested node target s e s')
    (hf : e.hasErrors = false) : b.Checked good e s s' := by
  obtain ⟨ha, hi⟩ := h
  cases hi with
  | other _ => cases hf
  | overloads _ _ => cases hf
  | @called info receiver methods c hg hfind =>
    cases ha with
    | other _ => cases hg
    | nameless _ _ _ => cases hg
    | @named _ nameNode r s₁ group _ hs ho hname hm =>
      obtain ⟨rfl, i, hgroup⟩ := hm.of_methodGroup hg
      obtain ⟨hgrow₁, hr⟩ := ho.checked hn hb hf
      obtain ⟨hgrow₂, ty, c', cs, hty, he, hall⟩ :=
        hm.finds hp (hb.grow hgrow₁) (fun ty h => hr.good_ty h) (.inr ⟨_, _, _, hgroup⟩)
      refine .of_sound (hgrow₁.trans hgrow₂) ?_
      have hmem : c ∈ c' :: cs := by
        rw [hgroup] at he
        rw [← access_eq_methodGroup he.symm]
        exact List.mem_of_find?_eq_some hfind
      obtain ⟨m, hfound⟩ := hall c hmem
      have hpar : c.params = [] := by simpa using List.find?_some hfind
      refine .intro hf ?_ (fun hk => ?_) ?_
      · rintro _ ⟨⟩
        exact hfound.ty
      · have hf' : r.hasErrors = false := hf
        rw [hf']
        exact .call hty (.of_finds hk hfound) (hfound.admits.isMethod rfl) (hfound.params.1 hpar)
      · intro d hd
        rw [List.mem_singleton.1 hd]
        exact hr.grow hp hgrow₂

end Members

end Binder

end UpdateExpr
