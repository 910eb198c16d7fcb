import UpdateExpr.Proofs.Ty.Instantiation
import UpdateExpr.Proofs.Ty.Normal
import UpdateExpr.Symbol.Table

/-!
# Instantiation one after another

To put arguments in the place of parameters is a substitution of trees. Where an argument stands
below `null`, the `null` is added to it anew, so it is lost on the error type and on an argument
that has `null` already. Such substitutions compose: the arguments of a second one can just as well
be put into the arguments of the first. Handles follow their trees, whatever tables the two ways
leave.

## Main definitions

* `Ty.subst`: a tree with trees in the place of parameters
* `Ty.ParamsIn`: all parameters of a tree have a property
* `Substitution.paramTree`: the tree that a substitution puts in the place of a parameter

## Main results

* `Ty.subst_subst`: two substitutions one after another are one
* `Ty.Normal.subst_parameter`: parameters in the place of themselves change nothing
* `expand_instantiate`: instantiation is a substitution of trees
* `instantiate_action`: instantiation with own parameters, and one after another
-/

namespace UpdateExpr

mutual

/-- A tree with trees in the place of its parameters. -/
def Ty.subst (f : DefId → Nat → Ty) : Ty → Ty
  | .unknown ty => .unknown ty
  | .intrinsic k => .intrinsic k
  | .plain d => .plain d
  | .applied d args => .applied d (Ty.substAll f args)
  | .parameter owner index => f owner index
  | .nullable inner => (inner.subst f).addNull

/-- Some trees with trees in the place of their parameters. -/
def Ty.substAll (f : DefId → Nat → Ty) : List Ty → List Ty
  | [] => []
  | ty :: rest => ty.subst f :: Ty.substAll f rest

end

namespace Ty

/-- All parameters of a tree have a property. -/
inductive ParamsIn (p : DefId → Nat → Prop) : Ty → Prop
  | intrinsic (k : Intrinsic) : ParamsIn p (.intrinsic k)
  | plain (d : DefId) : ParamsIn p (.plain d)
  | applied (d : DefId) {args : List Ty} (h : ∀ arg ∈ args, ParamsIn p arg) :
    ParamsIn p (.applied d args)
  | parameter {owner : DefId} {index : Nat} (h : p owner index) :
    ParamsIn p (.parameter owner index)
  | nullable {inner : Ty} (h : ParamsIn p inner) : ParamsIn p (.nullable inner)

variable {f g : DefId → Nat → Ty} {ty : Ty}

theorem substAll_eq_map (f : DefId → Nat → Ty) (args : List Ty) :
    substAll f args = args.map (subst f) := by
  induction args with
  | nil => rfl
  | cons arg args ih => rw [substAll, ih, List.map_cons]

@[simp] theorem subst_applied (f : DefId → Nat → Ty) (d : DefId) (args : List Ty) :
    (Ty.applied d args).subst f = .applied d (args.map (subst f)) := by
  rw [subst, substAll_eq_map]

@[simp] theorem subst_nullable (f : DefId → Nat → Ty) (inner : Ty) :
    (Ty.nullable inner).subst f = (inner.subst f).addNull := by
  rw [subst]

/-- `null` is added before a substitution as it is after. -/
@[simp] theorem subst_addNull (f : DefId → Nat → Ty) (ty : Ty) :
    ty.addNull.subst f = (ty.subst f).addNull := by
  cases h : ty.takesNull with
  | true => rw [addNull_of_takesNull h, subst_nullable]
  | false =>
    have hsame : ty.addNull = ty := if_neg (ne_true_of_eq_false h)
    rw [hsame]
    cases ty with
    | intrinsic k => cases k <;> first | rfl | cases h
    | nullable inner => rw [subst_nullable, addNull_addNull]
    | _ => cases h

/-- **Two substitutions one after another are one**, which puts the second into the trees of the
first. -/
theorem subst_subst (f g : DefId → Nat → Ty) (ty : Ty) :
    (ty.subst f).subst g = ty.subst fun owner index => (f owner index).subst g := by
  induction ty using Ty.ind with
  | unknown ty => rfl
  | intrinsic k => rfl
  | plain d => rfl
  | applied d args ih =>
    rw [subst_applied, subst_applied, subst_applied, List.map_map]
    exact congrArg (Ty.applied d) (List.map_congr_left ih)
  | parameter owner index => rfl
  | nullable inner ih => rw [subst_nullable, subst_addNull, ih, subst_nullable]

/-- **Parameters in the place of themselves change nothing.** -/
theorem Normal.subst_parameter (h : ty.Normal) : ty.subst .parameter = ty := by
  induction h with
  | intrinsic k => rfl
  | plain d => rfl
  | applied d _ _ ih =>
    rw [subst_applied]
    exact congrArg (Ty.applied d) ((List.map_congr_left ih).trans (List.map_id _))
  | parameter owner index => rfl
  | nullable _ hn ih => rw [subst_nullable, ih, addNull_of_takesNull hn]

/-- Trees in normal form in the place of parameters keep the normal form. -/
theorem Normal.subst (h : ty.Normal) (hf : ∀ owner index, (f owner index).Normal) :
    (ty.subst f).Normal := by
  induction h with
  | intrinsic k => exact .intrinsic k
  | plain d => exact .plain d
  | @applied d args hne _ ih =>
    rw [subst_applied]
    refine .applied d (fun hnil => hne (List.map_eq_nil_iff.1 hnil)) ?_
    exact List.forall_mem_map.2 ih
  | parameter owner index => exact hf owner index
  | nullable _ _ ih =>
    rw [subst_nullable]
    exact ih.addNull

/-- Only what stands in the place of its own parameters matters to a tree. -/
theorem ParamsIn.subst_congr {p : DefId → Nat → Prop} (h : ty.ParamsIn p)
    (hfg : ∀ owner index, p owner index → f owner index = g owner index) :
    ty.subst f = ty.subst g := by
  induction h with
  | intrinsic k => rfl
  | plain d => rfl
  | applied d _ ih =>
    rw [subst_applied, subst_applied]
    exact congrArg (Ty.applied d) (List.map_congr_left ih)
  | parameter h => exact hfg _ _ h
  | nullable _ ih => rw [subst_nullable, subst_nullable, ih]

end Ty

/-- The tree that a substitution puts in the place of a parameter. -/
def Substitution.paramTree (σ : Substitution) (t : TypeTable) (owner : DefId) (index : Nat) : Ty :=
  ((σ.get? owner index).map t.expand).getD (.parameter owner index)

section Instantiation

open Substitution

variable {σ τ : Substitution} {t t' : TypeTable} {ty : TypeId} {k n : Nat}

/-! ## Trees of arguments -/

theorem paramTree_eq_of_le (hσ : ∀ arg ∈ σ.args, t.Normal arg) (hle : t ≤ t') :
    σ.paramTree t' = σ.paramTree t := by
  funext owner index
  unfold paramTree
  cases ha : σ.get? owner index with
  | none => rfl
  | some arg => exact (hσ arg (mem_args_of_get? ha)).interned.expand_eq_of_le hle

theorem normal_paramTree (hσ : ∀ arg ∈ σ.args, t.Normal arg) (owner : DefId) (index : Nat) :
    (σ.paramTree t owner index).Normal := by
  unfold paramTree
  cases ha : σ.get? owner index with
  | none => exact .parameter owner index
  | some arg => exact hσ arg (mem_args_of_get? ha)

theorem paramTree_of_isEmpty (h : σ.isEmpty = true) : σ.paramTree t = .parameter := by
  have hargs : σ.args = [] := List.isEmpty_iff.1 h
  funext owner index
  unfold paramTree Substitution.get?
  rw [hargs, List.getElem?_nil, ite_self]
  rfl

/-! ## Instantiation of trees -/

/-- What is asked of the elements of a list, one after another, gives trees where it gives a tree
for each element, in whatever table. -/
theorem expand_mapM {α : Type} {f : α → TypeM TypeId} {g : α → Ty} {xs : List α}
    (h : ∀ x ∈ xs, ∀ t', t ≤ t' → t' ≤ (f x t').2 ∧ (f x t').2.Normal (f x t').1 ∧
      (f x t').2.expand (f x t').1 = g x) :
    t ≤ (xs.mapM f t).2 ∧ (∀ b ∈ (xs.mapM f t).1, (xs.mapM f t).2.Normal b) ∧
      (xs.mapM f t).1.map (xs.mapM f t).2.expand = xs.map g := by
  induction xs generalizing t with
  | nil => exact ⟨le_refl t, nofun, rfl⟩
  | cons x xs ih =>
    rw [List.forall_mem_cons] at h
    obtain ⟨hle, hnormal, htree⟩ := h.1 t (le_refl t)
    obtain ⟨hle', hnormals, htrees⟩ := ih fun y hy t' ht' => h.2 y hy t' (hle.trans ht')
    have hrun : (x :: xs).mapM f t =
        ((f x t).1 :: (xs.mapM f (f x t).2).1, (xs.mapM f (f x t).2).2) := by
      rw [List.mapM_cons]
      rfl
    rw [hrun]
    refine ⟨hle.trans hle', List.forall_mem_cons.2 ⟨hnormal.mono hle', hnormals⟩, ?_⟩
    rw [List.map_cons, List.map_cons, htrees, hnormal.interned.expand_eq_of_le hle', htree]

theorem le_instantiateTo (σ : Substitution) (n : Nat) (ty : TypeId) (t : TypeTable) :
    t ≤ (σ.instantiateTo n ty t).2 :=
  (steady_instantiateTo TypeTable.hereditary_true (fun _ _ => trivial) trivial (.inl rfl)).grows.le

/-- **A limit that a type does not reach gives the tree with arguments in place.** -/
theorem expand_instantiateTo (hσ : ∀ arg ∈ σ.args, t.Normal arg) (hty : t.Normal ty)
    (hw : t.Within k ty) (hn : k ≤ n) :
    (σ.instantiateTo n ty t).2.expand (σ.instantiateTo n ty t).1 =
      (t.expand ty).subst (σ.paramTree t) := by
  induction k generalizing n ty t with
  | zero => exact hw.elim
  | succ k ih =>
    obtain ⟨m, rfl⟩ : ∃ m, n = m + 1 := ⟨n - 1, by omega⟩
    obtain ⟨shape, hs, hwparts⟩ := hw
    have hparts := hty.parts hs
    -- A part ends one level earlier, and has the same tree in all tables that come up.
    have hpart : ∀ part ∈ shape.parts, ∀ t', t ≤ t' →
        t' ≤ (σ.instantiateTo m part t').2 ∧
        (σ.instantiateTo m part t').2.Normal (σ.instantiateTo m part t').1 ∧
        (σ.instantiateTo m part t').2.expand (σ.instantiateTo m part t').1 =
          (t.expand part).subst (σ.paramTree t) := by
      intro part hp t' hle
      have htree := ih (fun arg harg => (hσ arg harg).mono hle) ((hparts part hp).mono hle)
        ((hwparts part hp).mono hle) (by omega : k ≤ m)
      rw [paramTree_eq_of_le hσ hle, (hparts part hp).interned.expand_eq_of_le hle] at htree
      refine ⟨le_instantiateTo σ m part t', ?_, htree⟩
      unfold TypeTable.Normal
      rw [htree]
      exact (hparts part hp).subst (normal_paramTree hσ)
    have htree : (t.expand ty).Normal := hty
    rw [hty.interned.expand_eq hs] at htree ⊢
    simp only [instantiateTo, hs]
    cases shape with
    | intrinsic k => exact hty.interned.expand_eq hs
    | plain d => exact hty.interned.expand_eq hs
    | parameter owner index =>
      show t.expand ((σ.get? owner index).getD ty) = σ.paramTree t owner index
      unfold paramTree
      cases σ.get? owner index with
      | none => exact hty.interned.expand_eq hs
      | some arg => rfl
    | applied d args =>
      rw [show (TypeShape.applied d args).parts = args from rfl] at hpart
      obtain ⟨-, hnormal, hargs⟩ := expand_mapM hpart
      have hne : (args.mapM (σ.instantiateTo m) t).1 ≠ [] := by
        intro hnil
        rw [hnil, List.map_nil] at hargs
        cases htree with
        | applied _ hne _ => exact hne (by rw [List.map_eq_nil_iff.1 hargs.symm, List.map_nil])
      refine (TypeTable.expand_applied d hne fun arg harg => (hnormal arg harg).interned).trans ?_
      rw [TypeShape.tree, Ty.subst_applied, List.map_map]
      exact congrArg (Ty.applied d) hargs
    | nullable inner =>
      obtain ⟨-, hnormal, hinner⟩ := hpart inner (by simp [TypeShape.parts]) t (le_refl t)
      refine (TypeTable.expand_nullable hnormal).trans ?_
      rw [hinner, TypeShape.tree, Ty.subst_nullable]

/-- **Instantiation puts the trees of the arguments in the place of parameters.** -/
theorem expand_instantiate (hσ : ∀ arg ∈ σ.args, t.Normal arg) (hty : t.Normal ty) :
    (σ.instantiate ty t).2.expand (σ.instantiate ty t).1 =
      (t.expand ty).subst (σ.paramTree t) := by
  unfold instantiate
  split
  · next hsame =>
    rcases (Bool.or_eq_true_iff ..).1 hsame with hempty | hintrinsic
    · rw [paramTree_of_isEmpty hempty]
      exact (Ty.Normal.subst_parameter hty).symm
    · obtain ⟨k, rfl⟩ := isIntrinsic_iff.1 hintrinsic
      rw [TypeTable.expand_id]
      rfl
  · exact expand_instantiateTo hσ hty hty.interned.within_size (size_le_reach σ t ty)

theorem normal_instantiate (hσ : ∀ arg ∈ σ.args, t.Normal arg) (hty : t.Normal ty) :
    (σ.instantiate ty t).2.Normal (σ.instantiate ty t).1 := by
  unfold TypeTable.Normal
  rw [expand_instantiate hσ hty]
  exact Ty.Normal.subst hty (normal_paramTree hσ)

theorem expand_instantiateAll {tys : List TypeId} (hσ : ∀ arg ∈ σ.args, t.Normal arg)
    (htys : ∀ ty ∈ tys, t.Normal ty) :
    (∀ ty ∈ (σ.instantiateAll tys t).1, (σ.instantiateAll tys t).2.Normal ty) ∧
      (σ.instantiateAll tys t).1.map (σ.instantiateAll tys t).2.expand =
        tys.map fun ty => (t.expand ty).subst (σ.paramTree t) := by
  rw [instantiateAll_eq_mapM]
  refine (expand_mapM fun ty hty t' hle => ⟨le_instantiate σ ty t', ?_, ?_⟩).2
  · exact normal_instantiate (fun arg harg => (hσ arg harg).mono hle) ((htys ty hty).mono hle)
  · rw [expand_instantiate (fun arg harg => (hσ arg harg).mono hle) ((htys ty hty).mono hle),
      paramTree_eq_of_le hσ hle, (htys ty hty).interned.expand_eq_of_le hle]

/-! ## Own parameters -/

theorem defAndArgs?_applied (d : DefId) (args : List TypeId) (t : TypeTable) :
    (TypeTable.applied d args t).2.defAndArgs? (TypeTable.applied d args t).1 = some (d, args) := by
  unfold TypeTable.defAndArgs?
  cases args with
  | nil => rw [TypeTable.applied, TypeTable.plain, TypeTable.shape?_intern]
  | cons arg args => rw [TypeTable.applied, TypeTable.shape?_intern]

theorem expand_parameters (d : DefId) (xs : List Nat) (t : TypeTable) :
    t ≤ (xs.mapM (TypeTable.parameter d) t).2 ∧
      (∀ p ∈ (xs.mapM (TypeTable.parameter d) t).1,
        (xs.mapM (TypeTable.parameter d) t).2.Normal p) ∧
      (xs.mapM (TypeTable.parameter d) t).1.map (xs.mapM (TypeTable.parameter d) t).2.expand =
        xs.map (Ty.parameter d) := by
  refine expand_mapM fun index _ t' _ => ?_
  have htree : (TypeTable.parameter d index t').2.expand (TypeTable.parameter d index t').1 =
      .parameter d index := (TypeTable.expand_intern (.parameter d index) nofun).2
  refine ⟨TypeTable.le_intern t' _, ?_, htree⟩
  unfold TypeTable.Normal
  rw [htree]
  exact .parameter d index

theorem made_parameters (ht : t.Made) (d : DefId) (xs : List Nat) :
    (xs.mapM (TypeTable.parameter d) t).2.Made := by
  induction xs generalizing t with
  | nil => exact ht
  | cons x xs ih =>
    rw [List.mapM_cons]
    exact ih (ht.parameter d x)

/-- The type of an object of a definition is the definition with its own parameters as arguments. -/
theorem declaredType_parameters (s : SymbolTable) (ht : t.Made) (d : DefId) :
    (s.declaredType d t).2.Made ∧ ∃ args n,
      (s.declaredType d t).2.defAndArgs? (s.declaredType d t).1 = some (d, args) ∧
      (∀ arg ∈ args, (s.declaredType d t).2.Normal arg) ∧
      args.map (s.declaredType d t).2.expand = (List.range n).map (Ty.parameter d) := by
  generalize hn : ((s.definition? d).map (·.typeParams.length)).getD 0 = n
  obtain ⟨-, hnormal, htrees⟩ := expand_parameters d (List.range n) t
  have hmade := made_parameters ht d (List.range n)
  have hrun : s.declaredType d t = TypeTable.applied d
      ((List.range n).mapM (TypeTable.parameter d) t).1
      ((List.range n).mapM (TypeTable.parameter d) t).2 := by
    rw [← hn]
    rfl
  rw [hrun]
  generalize (List.range n).mapM (TypeTable.parameter d) t = params at hnormal htrees hmade
  have hle : params.2 ≤ (TypeTable.applied d params.1 params.2).2 :=
    (steady_applied TypeTable.hereditary_true d fun _ _ => trivial).grows.le
  have hlt : ∀ arg ∈ params.1, arg.index < params.2.size := fun arg harg => by
    obtain ⟨shape, hs, -⟩ := (hnormal arg harg).interned.shape?
    exact TypeTable.index_lt_size hs
  refine ⟨hmade.applied d hlt, params.1, n, defAndArgs?_applied d params.1 params.2, ?_, ?_⟩
  · exact fun arg harg => (hnormal arg harg).mono hle
  · rw [← htrees]
    exact List.map_congr_left fun arg harg => (hnormal arg harg).interned.expand_eq_of_le hle

/-- Own parameters as arguments are put in their own place. -/
theorem paramTree_parameters {d : DefId} {args : List TypeId}
    (h : args.map t.expand = (List.range n).map (Ty.parameter d)) :
    Substitution.paramTree ⟨some d, args⟩ t = .parameter := by
  funext owner index
  unfold paramTree Substitution.get?
  dsimp only
  split
  · next ho =>
    obtain rfl := Option.some.inj ho
    have hget : (args[index]?).map t.expand = ((List.range n)[index]?).map (Ty.parameter d) := by
      rw [← List.getElem?_map, h, List.getElem?_map]
    rw [hget]
    cases hi : (List.range n)[index]? with
    | none => rfl
    | some i =>
      obtain ⟨hlt, hat⟩ := List.getElem?_eq_some_iff.1 hi
      obtain rfl : index = i := by rw [← hat, List.getElem_range]
      rfl
  · rfl

/-! ## One after another -/

/-- The arguments of one substitution, instantiated by another, are put where both put them one
after the other. -/
theorem paramTree_instantiateAll {d : DefId} {a a' : List TypeId} {owner : DefId} {index : Nat}
    (h : a'.map t'.expand = a.map fun x => (t.expand x).subst (τ.paramTree t))
    (ho : owner = d) (hi : index < a.length) :
    Substitution.paramTree ⟨some d, a'⟩ t' owner index =
      (Substitution.paramTree ⟨some d, a⟩ t owner index).subst (τ.paramTree t) := by
  subst ho
  have hget : (a'[index]?).map t'.expand =
      (a[index]?).map fun x => (t.expand x).subst (τ.paramTree t) := by
    rw [← List.getElem?_map, h, List.getElem?_map]
  unfold paramTree Substitution.get?
  rw [if_pos rfl, if_pos rfl, hget, List.getElem?_eq_getElem hi]
  rfl

/-- To instantiate twice is to substitute twice. -/
theorem expand_twice (hσ : ∀ arg ∈ σ.args, t.Normal arg) (hτ : ∀ arg ∈ τ.args, t.Normal arg)
    (hty : t.Normal ty) :
    ((σ.instantiate ty >>= τ.instantiate) t).2.Normal ((σ.instantiate ty >>= τ.instantiate) t).1 ∧
      ((σ.instantiate ty >>= τ.instantiate) t).2.expand
          ((σ.instantiate ty >>= τ.instantiate) t).1 =
        ((t.expand ty).subst (σ.paramTree t)).subst (τ.paramTree t) := by
  have hle := le_instantiate σ ty t
  have hτ' : ∀ arg ∈ τ.args, (σ.instantiate ty t).2.Normal arg := fun arg harg =>
    (hτ arg harg).mono hle
  have hnormal := normal_instantiate hσ hty
  refine ⟨normal_instantiate hτ' hnormal, ?_⟩
  rw [bind_apply, expand_instantiate hτ' hnormal, expand_instantiate hσ hty,
    paramTree_eq_of_le hτ hle]

/-- To instantiate the arguments first is to substitute twice, if the type has no other parameters
than those that the arguments are for. -/
theorem expand_once {d : DefId} {a : List TypeId} (ha : ∀ arg ∈ a, t.Normal arg)
    (hτ : ∀ arg ∈ τ.args, t.Normal arg) (hty : t.Normal ty)
    (hparams : (t.expand ty).ParamsIn fun owner index => owner = d ∧ index < a.length)
    {once : TypeId × TypeTable}
    (h : (τ.instantiateAll a >>= fun a' => Substitution.instantiate ⟨some d, a'⟩ ty) t = once) :
    once.2.Normal once.1 ∧ once.2.expand once.1 =
      ((t.expand ty).subst (Substitution.paramTree ⟨some d, a⟩ t)).subst (τ.paramTree t) := by
  obtain ⟨hnormal, htrees⟩ := expand_instantiateAll hτ ha
  have hle := le_instantiateAll τ a t
  rw [bind_apply] at h
  generalize τ.instantiateAll a t = args at hnormal htrees hle h
  subst h
  refine ⟨normal_instantiate hnormal (hty.mono hle), ?_⟩
  rw [expand_instantiate hnormal (hty.mono hle), hty.interned.expand_eq_of_le hle, Ty.subst_subst]
  exact hparams.subst_congr fun owner index hp => paramTree_instantiateAll htrees hp.1 hp.2

end Instantiation

/-- **Instantiation acts on types.** The parameters of a definition in the place of themselves
change no type. And to put some arguments in the place of the parameters of a definition, and then
others in the place of those of another one, is to put arguments in place once which were
instantiated before: both ways give one type, in any table that both of them lead to, if the type
has no other parameters. -/
theorem instantiate_action {t : TypeTable} (ht : t.Made) :
    (∀ (s : SymbolTable) (d : DefId), ∃ args,
      (s.declaredType d t).2.defAndArgs? (s.declaredType d t).1 = some (d, args) ∧
      ∀ ty : TypeId, ty.index < (s.declaredType d t).2.size →
        (Substitution.instantiate ⟨some d, args⟩ ty (s.declaredType d t).2).1 = ty) ∧
    ∀ (d e : DefId) (a b : List TypeId) (ty : TypeId), ty.index < t.size →
      (∀ x ∈ a, x.index < t.size) → (∀ x ∈ b, x.index < t.size) →
      (t.expand ty).ParamsIn (fun owner index => owner = d ∧ index < a.length) →
      ∀ {u u' v v' w : TypeTable} {x y : TypeId}, t ≤ u → t ≤ u' →
        (Substitution.instantiate ⟨some d, a⟩ ty >>= Substitution.instantiate ⟨some e, b⟩) u =
          (x, v) →
        (Substitution.instantiateAll ⟨some e, b⟩ a >>= fun a' =>
          Substitution.instantiate ⟨some d, a'⟩ ty) u' = (y, v') →
        v ≤ w → v' ≤ w → x = y := by
  refine ⟨fun s d => ?_, fun d e a b ty hlt ha hb hparams u u' v v' w x y hu hu' hx hy hv hv' => ?_⟩
  · obtain ⟨hmade, args, n, hargs, hnormal, htrees⟩ := declaredType_parameters s ht d
    refine ⟨args, hargs, fun ty hlt => ?_⟩
    have hty := hmade.normal ty hlt
    have htree := expand_instantiate (σ := ⟨some d, args⟩) hnormal hty
    rw [paramTree_parameters htrees, Ty.Normal.subst_parameter hty] at htree
    have hle := le_instantiate ⟨some d, args⟩ ty (s.declaredType d t).2
    refine TypeTable.Interned.expand_injective (normal_instantiate hnormal hty).interned
      (hty.interned.mono hle) ?_
    rw [htree, hty.interned.expand_eq_of_le hle]
  · have hty := ht.normal ty hlt
    have ha' := fun z hz => ht.normal z (ha z hz)
    have hb' := fun z hz => ht.normal z (hb z hz)
    have hσ : ∀ {u}, t ≤ u → Substitution.paramTree ⟨some d, a⟩ u = _ := fun hle =>
      paramTree_eq_of_le (σ := ⟨some d, a⟩) ha' hle
    have hτ : ∀ {u}, t ≤ u → Substitution.paramTree ⟨some e, b⟩ u = _ := fun hle =>
      paramTree_eq_of_le (σ := ⟨some e, b⟩) hb' hle
    -- Both ways are followed by their trees, which speak of the first table only.
    obtain ⟨hnormal, htree⟩ := expand_twice (σ := ⟨some d, a⟩) (τ := ⟨some e, b⟩)
      (fun z hz => (ha' z hz).mono hu) (fun z hz => (hb' z hz).mono hu) (hty.mono hu)
    rw [hx, hty.interned.expand_eq_of_le hu, hσ hu, hτ hu] at htree
    rw [hx] at hnormal
    obtain ⟨hnormal', htree'⟩ := expand_once (τ := ⟨some e, b⟩) (fun z hz => (ha' z hz).mono hu')
      (fun z hz => (hb' z hz).mono hu') (hty.mono hu')
      (by rwa [hty.interned.expand_eq_of_le hu']) hy
    rw [hty.interned.expand_eq_of_le hu', hσ hu', hτ hu'] at htree'
    refine TypeTable.Interned.expand_injective (hnormal.mono hv).interned
      (hnormal'.mono hv').interned ?_
    rw [hnormal.interned.expand_eq_of_le hv, hnormal'.interned.expand_eq_of_le hv', htree, htree']

/-- The type `C<T0?, T1?>` of two parameters of `A`, with all its parts, the type `int?` and a
parameter of `B`. -/
def actTypes : TypeTable :=
  let t := (TypeTable.parameter ⟨0⟩ 0 {}).2
  let t := (TypeTable.parameter ⟨0⟩ 1 t).2
  let t := (TypeTable.nullable ⟨8⟩ t).2
  let t := (TypeTable.nullable ⟨9⟩ t).2
  let t := (TypeTable.applied ⟨2⟩ [⟨10⟩, ⟨11⟩] t).2
  let t := (TypeTable.nullable Intrinsic.int.id t).2
  (TypeTable.parameter ⟨1⟩ 0 t).2

theorem made_actTypes : actTypes.Made := by
  refine .parameter (.nullable (.applied (.nullable (.nullable (.parameter (.parameter
    .empty _ _) _ _) ?_) ?_) _ ?_) ?_) _ _
  all_goals decide +kernel

theorem expand_actTypes : actTypes.expand ⟨12⟩ =
    .applied ⟨2⟩ [.nullable (.parameter ⟨0⟩ 0), .nullable (.parameter ⟨0⟩ 1)] := by
  have hc : actTypes.shape? ⟨12⟩ = some (.applied ⟨2⟩ [⟨10⟩, ⟨11⟩]) := by decide +kernel
  have hn : actTypes.shape? ⟨10⟩ = some (.nullable ⟨8⟩) := by decide +kernel
  have hn' : actTypes.shape? ⟨11⟩ = some (.nullable ⟨9⟩) := by decide +kernel
  have hp : actTypes.shape? ⟨8⟩ = some (.parameter ⟨0⟩ 0) := by decide +kernel
  have hp' : actTypes.shape? ⟨9⟩ = some (.parameter ⟨0⟩ 1) := by decide +kernel
  have hsize : actTypes.size = 15 := by decide +kernel
  simp [TypeTable.expand, TypeTable.expandTo, hsize, hc, hn, hn', hp, hp']

/-- `C<T0?, T1?>` with `int?` and the parameter of `B` for the parameters of `A`, and then with the
error type for that of `B`. -/
def actTwice : TypeId × TypeTable :=
  (Substitution.instantiate ⟨some ⟨0⟩, [⟨13⟩, ⟨14⟩]⟩ ⟨12⟩ >>=
    Substitution.instantiate ⟨some ⟨1⟩, [.error]⟩) actTypes

/-- The same with `int?` and the error type at once, in the table that the first way left. -/
def actOnce : TypeId × TypeTable :=
  (Substitution.instantiateAll ⟨some ⟨1⟩, [.error]⟩ [⟨13⟩, ⟨14⟩] >>= fun args =>
    Substitution.instantiate ⟨some ⟨0⟩, args⟩ ⟨12⟩) actTwice.2

/-- Both ways give `C<int?, ?>`, with `null` added once and not at all. -/
theorem instantiate_action_of_null :
    (actTypes.Made ∧ 12 < actTypes.size ∧
      (actTypes.expand ⟨12⟩).ParamsIn (fun owner index => owner = ⟨0⟩ ∧ index < 2)) ∧
    actTypes ≤ actTwice.2 ∧ actTwice.2 ≤ actOnce.2 ∧
    actTwice.2.shape? actTwice.1 = some (.applied ⟨2⟩ [⟨13⟩, .error]) ∧
    actTwice.1 = actOnce.1 := by
  have hlt : 12 < actTypes.size := by decide +kernel
  have ha : ∀ x ∈ [(⟨13⟩ : TypeId), ⟨14⟩], x.index < actTypes.size := by decide +kernel
  have hb : ∀ x ∈ [TypeId.error], x.index < actTypes.size := by decide +kernel
  have hparams : (actTypes.expand ⟨12⟩).ParamsIn fun owner index => owner = ⟨0⟩ ∧ index < 2 := by
    rw [expand_actTypes]
    refine .applied _ (List.forall_mem_cons.2 ⟨.nullable (.parameter (by decide)), ?_⟩)
    exact List.forall_mem_singleton.2 (.nullable (.parameter (by decide)))
  have htwice : actTypes ≤ actTwice.2 := by
    rw [actTwice, bind_apply]
    exact (le_instantiate _ _ actTypes).trans (le_instantiate _ _ _)
  have honce : actTwice.2 ≤ actOnce.2 := by
    rw [actOnce, bind_apply]
    exact (le_instantiateAll _ _ actTwice.2).trans (le_instantiate _ _ _)
  refine ⟨⟨made_actTypes, hlt, hparams⟩, htwice, honce, by decide +kernel, ?_⟩
  exact (instantiate_action made_actTypes).2 ⟨0⟩ ⟨1⟩ [⟨13⟩, ⟨14⟩] [.error] ⟨12⟩ hlt ha hb hparams
    (le_refl actTypes) htwice rfl rfl honce (le_refl actOnce.2)

end UpdateExpr
