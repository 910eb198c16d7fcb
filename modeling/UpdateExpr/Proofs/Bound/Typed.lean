import UpdateExpr.Proofs.Bound.Part
import UpdateExpr.Proofs.Symbol.Conversion
import UpdateExpr.Bound.Binding

/-!
# Well-typed expressions

When an expression is well typed, on its own and as far as the types of its parts go. Every answer
that this depends on, such as the type of a member or the conversion between two types, is the one
that the table in the end gives: asking again adds nothing and says the same.

## Why the table in the end

An expression is bound while the table grows, and an answer is found in the table of its moment. A
consumer has the last table only. So a judgement about an early part has to survive all that is
bound after it, and `Typed.mono` is what the proof of soundness uses at each step.

## Main definitions

* `Binder.Usable`: a member that an expression may name behind a receiver
* `Binder.Sets`: an entry of an update that sets a member to a value
* `Binder.Typed`: an expression is well typed, given its parts
* `Binder.Clean`, `Binder.Sound`: no part of an expression is marked as faulty, and all are well
  typed

## Main results

* `Binder.Typed.mono`: what is well typed stays so when the table grows
* `Binder.Sound.intro`: an expression from sound parts
-/

namespace UpdateExpr

/-- The type of a literal. -/
def Constant.ty? : Constant → Option TypeId
  | int _ => some Intrinsic.int.id
  | long _ => some Intrinsic.long.id
  | double _ => some Intrinsic.double.id
  | text _ => some .string
  | bool _ => some Intrinsic.bool.id
  | null => none

/-- A hereditary property that all types without values of the error type share. -/
structure TypeTable.Proper (good : TypeTable → TypeId → Prop) : Prop
    extends TypeTable.Hereditary good where
  intrinsic : ∀ t k, k ≠ Intrinsic.error → good t k.id
  error : ∀ t, ¬ good t .error

namespace Binder

/-- An expression may name a member behind a receiver: the type of the receiver offers it to the
code around the expression, it belongs to an object, and it has no type parameters of its own. -/
structure Usable (b : Binder) (t : TypeTable) (receiver : TypeId) (c : Candidate) (m : Member) :
    Prop where
  offers : b.symbols.Offers b.scope.containing? t receiver c m
  isStatic : m.isStatic = false
  arity : m.arity = 0

/-- An entry of an update sets a member that the type of the copy offers, to a value whose type is
that of the member, but for `null` of references. An entry without a member sets nothing. -/
def Sets (b : Binder) (t : TypeTable) (copy : TypeId) (entry : Option MemberId × BoundExpr) :
    Prop :=
  ∀ id ∈ entry.1, ∃ c m ty, c.member = id ∧ b.Usable t copy c m ∧ m.isSettable true = true ∧
    entry.2.ty? = some ty ∧ Answers (b.symbols.classify ty c.ty) t .identity

/-- An expression is well typed, given the types of its parts. There is no case for a group of
methods, a placeholder, an assignment or a bad expression. -/
inductive Typed (b : Binder) (t : TypeTable) : BoundExpr → Prop
  | literal {node : NodeRef} (value : Constant) :
    Typed b t (.literal ⟨node, value.ty?, false⟩ value)
  | localVar {node : NodeRef} {name : String} {v : LocalVar} (h : b.scope.lookup? name = some v) :
    Typed b t (.localVar ⟨node, some v.ty, false⟩ v.id)
  | field {node : NodeRef} {receiver : BoundExpr} {ty : TypeId} {c : Candidate} {m : Member}
    (hr : receiver.ty? = some ty) (hu : b.Usable t ty c m) (hf : m.isField = true) :
    Typed b t (.field ⟨node, some c.ty, false⟩ receiver c.member)
  | property {node : NodeRef} {receiver : BoundExpr} {ty : TypeId} {c : Candidate} {m : Member}
    (hr : receiver.ty? = some ty) (hu : b.Usable t ty c m) (hf : m.isField = false)
    (hm : m.isMethod = false) :
    Typed b t (.property ⟨node, some c.ty, false⟩ receiver c.member)
  | call {node : NodeRef} {receiver : BoundExpr} {ty : TypeId} {c : Candidate} {m : Member}
    (hr : receiver.ty? = some ty) (hu : b.Usable t ty c m) (hm : m.isMethod = true)
    (hp : m.parameters = []) :
    Typed b t (.call ⟨node, some c.ty, false⟩ receiver c.member)
  | conversion {node : NodeRef} {operand : BoundExpr} {ty target : TypeId} {kind : Conversion}
    (ho : operand.ty? = some ty) (hc : Answers (b.symbols.classify ty target) t kind)
    (hk : kind.isImplicit = true) :
    Typed b t (.conversion ⟨node, some target, false⟩ operand kind)
  | nullConversion {node : NodeRef} {operand : BoundExpr} {target : TypeId}
    (hn : operand.isNull = true) (hc : Conversion.ofNull t target = .nullLiteral) :
    Typed b t (.conversion ⟨node, some target, false⟩ operand .nullLiteral)
  | update {node : NodeRef} {receiver : BoundExpr} {ty : TypeId} {c : Candidate} {m : Member}
    {entries : List (Option MemberId × BoundExpr)} (hr : receiver.ty? = some ty)
    (hv : ty ≠ .void) (hu : b.Usable t ty c m) (hn : m.name = cloneName)
    (hm : m.isMethod = true) (hp : m.parameters = [])
    (hd : Answers (b.symbols.derivesFrom .ignoreNull ty c.ty) t true)
    (he : ∀ entry ∈ entries, b.Sets t c.ty entry) :
    Typed b t (.update ⟨node, some c.ty, false⟩ receiver (some c.member) entries false)

/-- All parts of an expression are free of the mark and have types with a property. -/
def Clean (good : TypeTable → TypeId → Prop) (t : TypeTable) (e : BoundExpr) : Prop :=
  ∀ c : BoundExpr, c.PartOf e → c.hasErrors = false ∧ ∀ ty ∈ c.ty?, good t ty

/-- An expression is clean, and if the property is one of interned types, all parts are well
typed. -/
def Sound (b : Binder) (good : TypeTable → TypeId → Prop) (t : TypeTable) (e : BoundExpr) : Prop :=
  ∀ c : BoundExpr, c.PartOf e →
    c.hasErrors = false ∧ (∀ ty ∈ c.ty?, good t ty) ∧ (Known good → b.Typed t c)

section Typed

variable {b : Binder} {good : TypeTable → TypeId → Prop} {t t' : TypeTable} {ty : TypeId}
  {c : Candidate} {m : Member} {e : BoundExpr} {entry : Option MemberId × BoundExpr}

/-! ## Growth -/

theorem Usable.mono (hu : b.Usable t ty c m) (h : Later good t t') (hty : good t ty) :
    b.Usable t' ty c m where
  offers := hu.offers.mono h hty
  isStatic := hu.isStatic
  arity := hu.arity

theorem Sets.mono (hs : b.Sets t ty entry) (h : Later good t t') (hty : good t ty) :
    b.Sets t' ty entry := by
  intro id hid
  obtain ⟨c, m, value, hc, hu, hset, hv, ha⟩ := hs id hid
  exact ⟨c, m, value, hc, hu.mono h hty, hset, hv, ha.mono h.1⟩

theorem ofNull_eq_of_later (h : Later good t t') (hp : TypeTable.Proper good) (hty : good t ty) :
    Conversion.ofNull t' ty = Conversion.ofNull t ty := by
  unfold Conversion.ofNull
  rw [h.isReference_eq hp.toHereditary hty, h.nullableInner?_eq hty]

/-- **What is well typed stays so when the table grows**, if it and its parts have types with a
property. -/
theorem Typed.mono (ht : b.Typed t e) (h : Later good t t') (hp : TypeTable.Proper good)
    (hty : ∀ ty ∈ e.ty?, good t ty) (hparts : ∀ d ∈ e.children, ∀ ty ∈ d.ty?, good t ty) :
    b.Typed t' e := by
  cases ht with
  | literal value => exact .literal value
  | localVar hv => exact .localVar hv
  | field hr hu hf =>
    have hreceiver := hparts _ (by simp [BoundExpr.children]) _ hr
    exact .field hr (hu.mono h hreceiver) hf
  | property hr hu hf hm =>
    have hreceiver := hparts _ (by simp [BoundExpr.children]) _ hr
    exact .property hr (hu.mono h hreceiver) hf hm
  | call hr hu hm hpar =>
    have hreceiver := hparts _ (by simp [BoundExpr.children]) _ hr
    exact .call hr (hu.mono h hreceiver) hm hpar
  | conversion ho hc hk => exact .conversion ho (hc.mono h.1) hk
  | nullConversion hn hc =>
    refine .nullConversion hn ?_
    rw [ofNull_eq_of_later h hp (hty _ rfl)]
    exact hc
  | update hr hv hu hn hm hpar hd he =>
    have hreceiver := hparts _ (by simp [BoundExpr.children]) _ hr
    refine .update hr hv (hu.mono h hreceiver) hn hm hpar (hd.mono h.1) fun entry hentry => ?_
    exact (he entry hentry).mono h (hty _ rfl)

theorem Sound.hasErrors (h : b.Sound good t e) : e.hasErrors = false :=
  (h e .refl).1

theorem Sound.good_ty (h : b.Sound good t e) (hty : e.ty? = some ty) : good t ty :=
  (h e .refl).2.1 ty hty

theorem Sound.typed (h : b.Sound good t e) (hk : Known good) : b.Typed t e :=
  (h e .refl).2.2 hk

theorem Sound.clean (h : b.Sound good t e) : Clean good t e :=
  fun c hc => ⟨(h c hc).1, (h c hc).2.1⟩

theorem Clean.intro (he : e.hasErrors = false) (hty : ∀ ty ∈ e.ty?, good t ty)
    (hd : ∀ d ∈ e.children, Clean good t d) : Clean good t e :=
  BoundExpr.forall_partOf.2 ⟨⟨he, hty⟩, hd⟩

theorem Sound.child {d : BoundExpr} (h : b.Sound good t e) (hd : d ∈ e.children) :
    b.Sound good t d :=
  fun c hc => h c (.child hc hd)

/-- **An expression from sound parts.** -/
theorem Sound.intro (he : e.hasErrors = false) (hty : ∀ ty ∈ e.ty?, good t ty)
    (ht : Known good → b.Typed t e) (hd : ∀ d ∈ e.children, b.Sound good t d) :
    b.Sound good t e :=
  BoundExpr.forall_partOf.2 ⟨⟨he, hty, ht⟩, hd⟩

/-- **What is sound stays so when the table grows.** -/
theorem Sound.grow (h : b.Sound good t e) (hp : TypeTable.Proper good) (hgrow : Grows good t t') :
    b.Sound good t' e := by
  intro c hc
  obtain ⟨hf, hty, ht⟩ := h c hc
  refine ⟨hf, fun ty hm => hgrow.keep (hty ty hm), fun hk => ?_⟩
  refine (ht hk).mono ⟨hgrow.le, .inr hk⟩ hp hty fun d hd ty hm => ?_
  exact (h d (BoundExpr.PartOf.trans (.child .refl hd) hc)).2.1 ty hm

end Typed

end Binder

end UpdateExpr
