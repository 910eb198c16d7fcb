import UpdateExpr.Proofs.Symbol.Hiding
import UpdateExpr.Proofs.Symbol.Reversal
import UpdateExpr.Proofs.Ty.Composition

/-!
# Types in scope

A base, an interface or a type of a member is written over the type parameters of its definition. On
the way up from a type, and for the members on each level, the arguments of that level stand in the
place of these parameters. So if each definition is applied to as many arguments as it has
parameters, nothing is left of them: what is found from a type has no parameters but those of the
type.

Substitution changes from level to level. What is carried along is the scope of the type at the
start: each level is in it, so its arguments are, and instantiation leads from the scope of the
level's definition to that of the arguments.

## Main definitions

* `SymbolTable.InScope`: a type is well formed over some parameters
* `SymbolTable.Scoped`: the types of a symbol table are well formed over the parameters of their
  definitions
* `SymbolTable.Supplies`: a substitution leads from one scope to another
* `SymbolTable.Presentable`: the types of a member that was found are in a scope
* `TypeTable.ParameterFree`: a type is built without parameters

## Main results

* `inScope_instantiate`: instantiation leads from one scope to another
* `inScope_baseChain`, `inScope_interfaceClosure`: the walks stay in the scope of their start
* `presentable_lookup`: and so do the members that are found
* `parameterFree_found`: where a type has no parameters, what is found from it has none
-/

namespace UpdateExpr

namespace SymbolTable

/-- A definition takes a number of type arguments; one that is missing takes any. -/
def Takes (s : SymbolTable) (d : DefId) (count : Nat) : Prop :=
  ∀ c ∈ s.definition? d, c.typeParams.length = count

instance (s : SymbolTable) (d : DefId) (count : Nat) : Decidable (s.Takes d count) :=
  inferInstanceAs (Decidable (∀ c ∈ s.definition? d, c.typeParams.length = count))

/-- A shape fits a scope: a definition is applied to as many arguments as it takes, and a parameter
is one of the scope. -/
def Fits (s : SymbolTable) (p : DefId → Nat → Prop) : TypeShape → Prop
  | .plain d => s.Takes d 0
  | .applied d args => s.Takes d args.length
  | .parameter owner index => p owner index
  | .intrinsic _ | .nullable _ => True

instance (s : SymbolTable) (p : DefId → Nat → Prop) [∀ d index, Decidable (p d index)] :
    (shape : TypeShape) → Decidable (s.Fits p shape)
  | .plain d => inferInstanceAs (Decidable (s.Takes d 0))
  | .applied d args => inferInstanceAs (Decidable (s.Takes d args.length))
  | .parameter owner index => inferInstanceAs (Decidable (p owner index))
  | .intrinsic _ | .nullable _ => .isTrue trivial

/-- A type is in a scope: it is built from known handles, and all shapes that it is built from fit.
-/
inductive InScope (s : SymbolTable) (p : DefId → Nat → Prop) (t : TypeTable) : TypeId → Prop
  | intro {ty : TypeId} {shape : TypeShape} (hs : t.shape? ty = some shape) (hf : s.Fits p shape)
    (hp : ∀ part ∈ shape.parts, InScope s p t part) : InScope s p t ty

/-- A type is in a scope, in at most a number of levels. -/
def InScopeTo (s : SymbolTable) (p : DefId → Nat → Prop) (t : TypeTable) : Nat → TypeId → Prop
  | 0, _ => False
  | n + 1, ty =>
    ∃ shape ∈ t.shape? ty, s.Fits p shape ∧ ∀ part ∈ shape.parts, s.InScopeTo p t n part

/-- The parameters of a definition. -/
def Owns (d : DefId) (c : Definition) (owner : DefId) (index : Nat) : Prop :=
  owner = d ∧ index < c.typeParams.length

instance decidableInScopeTo (s : SymbolTable) (p : DefId → Nat → Prop)
    [∀ d index, Decidable (p d index)] (t : TypeTable) :
    (n : Nat) → (ty : TypeId) → Decidable (s.InScopeTo p t n ty)
  | 0, _ => .isFalse id
  | n + 1, ty =>
    have := decidableInScopeTo s p t n
    inferInstanceAs (Decidable (∃ shape ∈ t.shape? ty, s.Fits p shape ∧
      ∀ part ∈ shape.parts, s.InScopeTo p t n part))

instance (d : DefId) (c : Definition) (owner : DefId) (index : Nat) :
    Decidable (Owns d c owner index) :=
  inferInstanceAs (Decidable (owner = d ∧ index < c.typeParams.length))

/-- The bases, the interfaces and the types of the members of each definition are in the scope of
its own parameters. -/
structure Scoped (s : SymbolTable) (t : TypeTable) : Prop where
  base : ∀ {d c ty}, s.definition? d = some c → c.base? = some ty → s.InScope (Owns d c) t ty
  interface : ∀ {d c ty}, s.definition? d = some c → ty ∈ c.interfaces → s.InScope (Owns d c) t ty
  value : ∀ {d c id m}, s.definition? d = some c → id ∈ c.members → s.member? id = some m →
    s.InScope (Owns d c) t m.valueType
  parameter : ∀ {d c id m ty}, s.definition? d = some c → id ∈ c.members → s.member? id = some m →
    ty ∈ m.parameters → s.InScope (Owns d c) t ty

/-- A substitution has an argument for each parameter of one scope, and these are in another. -/
def Supplies (s : SymbolTable) (σ : Substitution) (p p' : DefId → Nat → Prop) (t : TypeTable) :
    Prop :=
  ∀ owner index, p owner index → ∃ arg, σ.get? owner index = some arg ∧ s.InScope p' t arg

/-- The types that a candidate has for the receiver are in a scope. -/
structure Presentable (s : SymbolTable) (p : DefId → Nat → Prop) (t : TypeTable) (c : Candidate) :
    Prop where
  ty : s.InScope p t c.ty
  params : ∀ x ∈ c.params, s.InScope p t x

end SymbolTable

/-- A type is built without type parameters. -/
def TypeTable.ParameterFree (t : TypeTable) (ty : TypeId) : Prop :=
  ∀ part, t.Mentions part ty → ∀ owner index, t.shape? part ≠ some (.parameter owner index)

section Scope

variable {s : SymbolTable} {p p' : DefId → Nat → Prop} {t t' : TypeTable} {q : QueryState}
  {ty : TypeId} {shape : TypeShape} {σ : Substitution} {n : Nat}

/-! ## Types in scope -/

namespace SymbolTable.InScope

theorem mono (h : s.InScope p t ty) (hle : t ≤ t') : s.InScope p t' ty := by
  induction h with
  | intro hs hf _ ih => exact .intro (hle _ _ hs) hf ih

/-- A scope may be replaced by a larger one. -/
theorem widen (h : s.InScope p t ty) (hp : ∀ owner index, p owner index → p' owner index) :
    s.InScope p' t ty := by
  induction h with
  | @intro ty shape hs hf _ ih =>
    refine .intro hs ?_ ih
    cases shape with
    | parameter owner index => exact hp owner index hf
    | _ => exact hf

theorem interned (h : s.InScope p t ty) : t.Interned ty := by
  induction h with
  | intro hs _ _ ih => exact .intro hs ih

theorem shape? (h : s.InScope p t ty) (hs : t.shape? ty = some shape) :
    s.Fits p shape ∧ ∀ part ∈ shape.parts, s.InScope p t part := by
  cases h with
  | intro hs' hf hp =>
    cases hs.symm.trans hs'
    exact ⟨hf, hp⟩

theorem id (s : SymbolTable) (p : DefId → Nat → Prop) (t : TypeTable) (k : Intrinsic) :
    s.InScope p t k.id :=
  .intro (t.shape?_id k) trivial (List.forall_mem_nil _)

/-- Whether a type is in a scope can be found out level by level. -/
theorem of_inScopeTo (h : s.InScopeTo p t n ty) : s.InScope p t ty := by
  induction n generalizing ty with
  | zero => exact h.elim
  | succ n ih =>
    obtain ⟨shape, hs, hf, hp⟩ := h
    exact .intro hs hf fun part hpart => ih (hp part hpart)

/-- **A type in scope is built from no other parameters.** -/
theorem of_mentions (h : s.InScope p t ty) {part : TypeId} (hm : t.Mentions part ty) :
    s.InScope p t part := by
  induction hm with
  | here => exact h
  | part hs hp _ ih => exact ih ((h.shape? hs).2 _ hp)

theorem parameterFree (h : s.InScope (fun _ _ => False) t ty) : t.ParameterFree ty := by
  intro part hm owner index hs
  exact ((h.of_mentions hm).shape? hs).1

/-- A type without parameters is in each scope, if it is in one. -/
theorem of_parameterFree (h : s.InScope p t ty) (hfree : t.ParameterFree ty) :
    s.InScope p' t ty := by
  induction h with
  | @intro ty shape hs hf hp ih =>
    refine .intro hs ?_ fun part hpart => ih part hpart fun target hm => ?_
    · cases shape with
      | parameter owner index => exact absurd hs (hfree ty .here owner index)
      | _ => exact hf
    · exact hfree target (.part hs hpart hm)

/-- The definition of a type in scope gets as many arguments as it takes, and these are in scope. -/
theorem defAndArgs? (h : s.InScope p t ty) {d : DefId} {args : List TypeId}
    (hd : t.defAndArgs? ty = some (d, args)) :
    s.Takes d args.length ∧ ∀ arg ∈ args, s.InScope p t arg := by
  unfold TypeTable.defAndArgs? at hd
  split at hd
  · next hs =>
    cases hd
    exact ⟨(h.shape? hs).1, List.forall_mem_nil _⟩
  · next hs =>
    cases hd
    exact h.shape? hs
  · cases hd

theorem strip (h : s.InScope p t ty) : s.InScope p t (t.strip ty) := by
  unfold TypeTable.strip TypeTable.nullableInner?
  split
  · next inner hs => exact (h.shape? hs).2 inner (List.mem_singleton_self inner)
  · exact h

end SymbolTable.InScope

/-! ## Asking for types -/

theorem inScope_intern (hf : s.Fits p shape) (hp : ∀ part ∈ shape.parts, s.InScope p t part) :
    s.InScope p (TypeTable.intern shape t).2 (TypeTable.intern shape t).1 :=
  .intro (TypeTable.shape?_intern t shape) hf fun part hpart =>
    (hp part hpart).mono (TypeTable.le_intern t shape)

theorem inScope_applied {d : DefId} {args : List TypeId} (hd : s.Takes d args.length)
    (h : ∀ arg ∈ args, s.InScope p t arg) :
    s.InScope p (TypeTable.applied d args t).2 (TypeTable.applied d args t).1 := by
  cases args with
  | nil =>
    have hf : s.Fits p (.plain d) := hd
    exact inScope_intern hf (List.forall_mem_nil _)
  | cons arg args =>
    have hf : s.Fits p (.applied d (arg :: args)) := hd
    exact inScope_intern hf h

theorem inScope_nullable (h : s.InScope p t ty) :
    s.InScope p (TypeTable.nullable ty t).2 (TypeTable.nullable ty t).1 := by
  unfold TypeTable.nullable
  split
  · exact h
  · exact inScope_intern trivial (List.forall_mem_singleton.2 h)

/-! ## Instantiation -/

theorem SymbolTable.Supplies.mono (h : s.Supplies σ p p' t) (hle : t ≤ t') :
    s.Supplies σ p p' t' := by
  intro owner index hp
  obtain ⟨arg, hget, harg⟩ := h owner index hp
  exact ⟨arg, hget, harg.mono hle⟩

/-- **The arguments of a type in scope supply the parameters of its definition.** -/
theorem SymbolTable.InScope.supplies (h : s.InScope p t ty) {d : DefId} {args : List TypeId}
    {c : Definition} (hd : t.defAndArgs? ty = some (d, args)) (hc : s.definition? d = some c) :
    s.Supplies ⟨some d, args⟩ (SymbolTable.Owns d c) p t := by
  rintro owner index ⟨rfl, hindex⟩
  obtain ⟨htakes, hargs⟩ := h.defAndArgs? hd
  have hlt : index < args.length := by
    rwa [← htakes c hc]
  refine ⟨args[index], ?_, hargs _ (List.getElem_mem hlt)⟩
  rw [Substitution.get?, if_pos rfl, List.getElem?_eq_getElem hlt]

/-- So do the arguments by which lookup goes on a level. -/
theorem SymbolTable.InScope.supplies_ofType (h : s.InScope p t ty) {d : DefId} {args : List TypeId}
    {c : Definition} (hd : t.defAndArgs? ty = some (d, args)) (hc : s.definition? d = some c) :
    s.Supplies (.ofType t ty) (SymbolTable.Owns d c) p t := by
  have hsupplies := h.supplies hd hc
  unfold Substitution.ofType
  rw [hd]
  cases args with
  | nil =>
    intro owner index hp
    obtain ⟨arg, hget, -⟩ := hsupplies owner index hp
    cases mem_args_of_get? hget
  | cons arg args => exact hsupplies

/-- Types in scope that are got one after another, while the table grows. -/
theorem inScope_mapM {m : TypeId → TypeM TypeId} {xs : List TypeId}
    (h : ∀ x ∈ xs, ∀ t', t ≤ t' → t' ≤ (m x t').2 ∧ s.InScope p (m x t').2 (m x t').1) :
    t ≤ (xs.mapM m t).2 ∧ (∀ y ∈ (xs.mapM m t).1, s.InScope p (xs.mapM m t).2 y) ∧
      (xs.mapM m t).1.length = xs.length := by
  induction xs generalizing t with
  | nil => exact ⟨le_refl t, List.forall_mem_nil _, rfl⟩
  | cons x xs ih =>
    rw [List.forall_mem_cons] at h
    obtain ⟨hle, hx⟩ := h.1 t (le_refl t)
    have hrest := fun y hy t' ht' => h.2 y hy t' (hle.trans ht')
    obtain ⟨hle', hxs, hlength⟩ := ih hrest
    have hrun : (x :: xs).mapM m t =
        ((m x t).1 :: (xs.mapM m (m x t).2).1, (xs.mapM m (m x t).2).2) := by
      rw [List.mapM_cons]
      rfl
    rw [hrun]
    refine ⟨hle.trans hle', List.forall_mem_cons.2 ⟨hx.mono hle', hxs⟩, ?_⟩
    exact congrArg (· + 1) hlength

/-- A limit that a type does not reach leads from one scope to another. -/
theorem inScope_instantiateTo (hσ : s.Supplies σ p p' t) (hty : s.InScope p t ty)
    (hw : t.Within n ty) :
    s.InScope p' (σ.instantiateTo n ty t).2 (σ.instantiateTo n ty t).1 := by
  induction n generalizing ty t with
  | zero => exact hw.elim
  | succ n ih =>
    obtain ⟨shape, hs, hwparts⟩ := hw
    obtain ⟨hf, hparts⟩ := hty.shape? hs
    -- While one part is instantiated, the table grows; what the others are supplied with stays.
    have hpart : ∀ part ∈ shape.parts, ∀ t', t ≤ t' → t' ≤ (σ.instantiateTo n part t').2 ∧
        s.InScope p' (σ.instantiateTo n part t').2 (σ.instantiateTo n part t').1 := by
      intro part hp t' hle
      refine ⟨le_instantiateTo σ n part t', ?_⟩
      exact ih (hσ.mono hle) ((hparts part hp).mono hle) ((hwparts part hp).mono hle)
    simp only [Substitution.instantiateTo, hs]
    cases shape with
    | intrinsic k => exact .intro hs trivial (List.forall_mem_nil _)
    | plain d => exact .intro hs hf (List.forall_mem_nil _)
    | parameter owner index =>
      obtain ⟨arg, hget, harg⟩ := hσ owner index hf
      show s.InScope p' t ((σ.get? owner index).getD ty)
      rwa [hget]
    | applied d args =>
      rw [show (TypeShape.applied d args).parts = args from rfl] at hpart
      obtain ⟨-, hargs, hlength⟩ := inScope_mapM hpart
      have htakes : s.Takes d (args.mapM (σ.instantiateTo n) t).1.length := by rwa [hlength]
      exact inScope_applied htakes hargs
    | nullable inner =>
      exact inScope_nullable (hpart inner (List.mem_singleton_self inner) t (le_refl t)).2

/-- **Instantiation leads from one scope to another.** -/
theorem inScope_instantiate (hσ : s.Supplies σ p p' t) (hty : s.InScope p t ty) :
    s.InScope p' (σ.instantiate ty t).2 (σ.instantiate ty t).1 := by
  unfold Substitution.instantiate
  split
  · next hsame =>
    rcases (Bool.or_eq_true_iff ..).1 hsame with hempty | hintrinsic
    · refine hty.widen fun owner index hp => ?_
      obtain ⟨arg, hget, -⟩ := hσ owner index hp
      have hmem := mem_args_of_get? hget
      rw [List.isEmpty_iff.1 hempty] at hmem
      cases hmem
    · obtain ⟨k, rfl⟩ := isIntrinsic_iff.1 hintrinsic
      exact .id s p' t k
  · exact inScope_instantiateTo hσ hty (hty.interned.within_size.of_le (size_le_reach σ t ty))

theorem inScope_instantiateAll {tys : List TypeId} (hσ : s.Supplies σ p p' t)
    (htys : ∀ ty ∈ tys, s.InScope p t ty) :
    ∀ ty ∈ (σ.instantiateAll tys t).1, s.InScope p' (σ.instantiateAll tys t).2 ty := by
  rw [instantiateAll_eq_mapM]
  refine (inScope_mapM fun ty hty t' hle => ⟨le_instantiate σ ty t', ?_⟩).2.1
  exact inScope_instantiate (hσ.mono hle) ((htys ty hty).mono hle)

/-! ## The way up -/

/-- **The base of a type in scope is in scope.** -/
theorem inScope_baseType {base : TypeId} (hs : s.Scoped t) (hq : t ≤ q.types)
    (hty : s.InScope p q.types ty) (hb : (s.baseType ty q).1 = some base) :
    s.InScope p (s.baseType ty q).2.types base := by
  obtain ⟨d, args, c, hd, hc, rfl | ⟨declared, hdeclared, hrun⟩⟩ := baseType_cases hb
  · exact .id s p _ .object
  · obtain ⟨hbase, htypes⟩ := Prod.mk.inj hrun
    rw [hbase, htypes]
    exact inScope_instantiate (hty.supplies hd hc) ((hs.base hc hdeclared).mono hq)

/-- **The interfaces that a type in scope names are in scope.** -/
theorem inScope_directInterfaces (hs : s.Scoped t) (hq : t ≤ q.types)
    (hty : s.InScope p q.types ty) :
    ∀ x ∈ (s.directInterfaces ty q).1, s.InScope p (s.directInterfaces ty q).2.types x := by
  rcases directInterfaces_cases s ty q with hnone | ⟨d, args, c, hd, hc, hrun⟩
  · rw [hnone]
    exact List.forall_mem_nil _
  · obtain ⟨hfound, htypes⟩ := Prod.mk.inj hrun
    rw [hfound, htypes]
    exact inScope_instantiateAll (hty.supplies hd hc) fun x hx => (hs.interface hc hx).mono hq

theorem inScope_baseChain (hs : s.Scoped t) (hq : t ≤ q.types) (hty : s.InScope p q.types ty) :
    ∀ x ∈ (s.baseChain ty q).1, s.InScope p (s.baseChain ty q).2.types x :=
  forall_mem_climb (P := fun u x => s.InScope p u x) (fun hle h => h.mono hle)
    (inScope_baseType hs) hq (List.forall_mem_singleton.2 hty) hty

theorem inScope_interfaceClosure (hs : s.Scoped t) (hq : t ≤ q.types)
    (hty : s.InScope p q.types ty) :
    ∀ x ∈ (s.interfaceClosure ty q).1, s.InScope p (s.interfaceClosure ty q).2.types x :=
  forall_mem_spread (P := fun u x => s.InScope p u x) (fun hle h => h.mono hle)
    (inScope_directInterfaces hs) hq (List.forall_mem_nil _) (List.forall_mem_singleton.2 hty)

theorem inScope_levels (hs : s.Scoped t) (hq : t ≤ q.types) (hty : s.InScope p q.types ty) :
    ∀ level ∈ (s.levels ty q).1, s.InScope p (s.levels ty q).2.types level := by
  have hrun : s.levels ty q =
      (if s.isInterface q.types ty then s.interfaceClosure ty else s.baseChain ty) q := rfl
  rw [hrun]
  split
  · exact inScope_interfaceClosure hs hq hty
  · exact inScope_baseChain hs hq hty

theorem le_levels (s : SymbolTable) (ty : TypeId) (q : QueryState) :
    q.types ≤ (s.levels ty q).2.types :=
  (steady_levels TypeTable.hereditary_true (fun _ _ => trivial) trivial).grows.le

/-! ## Members -/

section Members

variable {query : LookupQuery} {inClass : Bool} {above : List Signature} {id : MemberId}
  {m : Member} {c : Candidate} {ids : List MemberId} {level : TypeId} {levels : List TypeId}

theorem SymbolTable.Presentable.mono (h : s.Presentable p t c) (hle : t ≤ t') :
    s.Presentable p t' c :=
  ⟨h.ty.mono hle, fun x hx => (h.params x hx).mono hle⟩

/-- **A member that is seen on a level has types in scope there.** -/
theorem presentable_sight (hm : s.member? id = some m) (hn : m.name = query.name)
    (hσ : s.Supplies σ p p' q.types) (hparams : ∀ x ∈ m.parameters, s.InScope p q.types x)
    (hvalue : s.InScope p q.types m.valueType) :
    ∀ g ∈ (s.sight query inClass above σ id q).1,
      s.Presentable p' (s.sight query inClass above σ id q).2.types g.candidate := by
  rw [sight_apply 0 inClass above hm rfl rfl]
  split
  · exact nofun
  · rintro g ⟨⟩
    have hq₁ := le_instantiateAll σ m.parameters q.types
    have hq₂ := le_judge (s := s) hn { q with types := (σ.instantiateAll m.parameters q.types).2 }
    have hle := hq₁.trans hq₂
    refine ⟨inScope_instantiate (hσ.mono hle) (hvalue.mono hle), fun x hx => ?_⟩
    exact (inScope_instantiateAll hσ hparams x hx).mono (hq₂.trans (le_instantiate σ _ _))

theorem presentable_filterMapM (hσ : s.Supplies σ p p' q.types)
    (hids : ∀ id ∈ ids, ∃ m, s.member? id = some m ∧ m.name = query.name ∧
      (∀ x ∈ m.parameters, s.InScope p q.types x) ∧ s.InScope p q.types m.valueType) :
    ∀ g ∈ (ids.filterMapM (s.sight query inClass above σ) q).1,
      s.Presentable p' (ids.filterMapM (s.sight query inClass above σ) q).2.types g.candidate := by
  induction ids generalizing q with
  | nil => exact nofun
  | cons id ids ih =>
    rw [List.forall_mem_cons] at hids
    obtain ⟨⟨m, hm, hn, hparams, hvalue⟩, hids⟩ := hids
    have hle := le_sight inClass above hm hn q (σ := σ)
    have hfound : ∀ id ∈ ids, ∃ m, s.member? id = some m ∧ m.name = query.name := by
      intro id hid
      obtain ⟨m, hm, hn, -⟩ := hids id hid
      exact ⟨m, hm, hn⟩
    have hrest := le_filterMapM_sight inClass σ above hfound (s.sight query inClass above σ id q).2
    rw [filterMapM_cons_apply]
    refine List.forall_mem_append.2 ⟨fun g hg => ?_, ih (hσ.mono hle) fun id hid => ?_⟩
    · exact (presentable_sight hm hn hσ hparams hvalue g (Option.mem_toList.1 hg)).mono hrest
    · obtain ⟨m, hm, hn, hparams, hvalue⟩ := hids id hid
      exact ⟨m, hm, hn, fun x hx => (hparams x hx).mono hle, hvalue.mono hle⟩

theorem presentable_sightLevel (hs : s.Scoped t) (hq : t ≤ q.types) (query : LookupQuery)
    (inClass : Bool) (above : List Signature) (hlevel : s.InScope p q.types level) :
    ∀ g ∈ (s.sightLevel query inClass above level q).1,
      s.Presentable p (s.sightLevel query inClass above level q).2.types g.candidate := by
  cases hd : q.types.defAndArgs? level with
  | none =>
    rw [sightLevel_of_none hd]
    exact List.forall_mem_nil _
  | some pair =>
    obtain ⟨d, args⟩ := pair
    rw [sightLevel_of_some hd]
    cases hc : s.definition? d with
    | none =>
      have hnone : s.membersNamed d query.name = [] := by
        rw [SymbolTable.membersNamed, hc]
      rw [hnone]
      exact List.forall_mem_nil _
    | some c =>
      refine presentable_filterMapM (hlevel.supplies_ofType hd hc) fun id hid => ?_
      obtain ⟨m, hm, hn⟩ := member_of_mem_membersNamed hid
      have hmember : id ∈ c.members := by
        rw [SymbolTable.membersNamed, hc] at hid
        exact (List.mem_filter.1 hid).1
      exact ⟨m, hm, hn, fun x hx => (hs.parameter hc hmember hm hx).mono hq,
        (hs.value hc hmember hm).mono hq⟩

theorem presentable_sightLevels (hs : s.Scoped t) (hq : t ≤ q.types) (query : LookupQuery)
    (inClass : Bool) (above : List Signature)
    (hlevels : ∀ level ∈ levels, s.InScope p q.types level) :
    ∀ g ∈ (s.sightLevels query inClass above levels q).1,
      s.Presentable p (s.sightLevels query inClass above levels q).2.types g.candidate := by
  induction levels generalizing above q with
  | nil => exact List.forall_mem_nil _
  | cons level below ih =>
    rw [List.forall_mem_cons] at hlevels
    have hfirst := presentable_sightLevel hs hq query inClass above hlevels.1
    rw [sightLevels_cons_apply inClass above level below rfl rfl]
    split
    · exact hfirst
    · have hle : q.types ≤ (s.sightLevel query inClass above level q).2.types :=
        le_sightLevel inClass above level q
      generalize s.sightLevel query inClass above level q = seen at hfirst hle
      have hrest := ih (q := seen.2) (hq.trans hle) (above ++ seen.1.filterMap (·.signature?))
        fun x hx => (hlevels.2 x hx).mono hle
      refine List.forall_mem_append.2 ⟨fun g hg => (hfirst g hg).mono ?_, hrest⟩
      exact le_sightLevels inClass _ below seen.2

/-- **The types of the members that lookup finds are in the scope of the type.** -/
theorem presentable_lookup (hs : s.Scoped t) (hq : t ≤ q.types) (hty : s.InScope p q.types ty)
    (query : LookupQuery) : ∀ c ∈ (s.lookup ty query q).1.candidates,
      s.Presentable p (s.lookup ty query q).2.types c := by
  cases hd : q.types.defAndArgs? (q.types.strip ty) with
  | none =>
    rw [lookup_of_none hd]
    exact List.forall_mem_nil _
  | some pair =>
    rw [lookup_of_some hd rfl rfl]
    have hlevels := inScope_levels hs hq hty.strip
    have hle := le_levels s (q.types.strip ty) q
    have hseen := presentable_sightLevels hs (hq.trans hle) query
      (!s.isInterface q.types (q.types.strip ty)) [] hlevels
    intro c hc
    obtain ⟨g, hg, rfl, -⟩ := Lookup.verdict_of_mem_ofSightings hc
    exact hseen g hg

end Members

end Scope

/-- **No type parameter is left in what is found from a type without any.** In a symbol table whose
bases, interfaces and types of members are in the scope of the parameters of their definition, with
as many arguments for each definition as it takes, and from a type that is well formed like this and
has no parameters itself, neither a base nor an interface that is reached has a parameter, nor has a
type of a member that lookup finds, whatever its verdict is. -/
theorem parameterFree_found {s : SymbolTable} {p : DefId → Nat → Prop} {t : TypeTable}
    {q : QueryState} {ty : TypeId} (hs : s.Scoped t) (hq : t ≤ q.types)
    (hty : s.InScope p q.types ty) (hfree : q.types.ParameterFree ty) :
    (∀ x ∈ (s.baseChain ty q).1, (s.baseChain ty q).2.types.ParameterFree x) ∧
    (∀ x ∈ (s.interfaceClosure ty q).1, (s.interfaceClosure ty q).2.types.ParameterFree x) ∧
    ∀ query, ∀ c ∈ (s.lookup ty query q).1.candidates,
      (s.lookup ty query q).2.types.ParameterFree c.ty ∧
        ∀ x ∈ c.params, (s.lookup ty query q).2.types.ParameterFree x := by
  have hclosed : s.InScope (fun _ _ => False) q.types ty := hty.of_parameterFree hfree
  refine ⟨fun x hx => ?_, fun x hx => ?_, fun query c hc => ?_⟩
  · exact (inScope_baseChain hs hq hclosed x hx).parameterFree
  · exact (inScope_interfaceClosure hs hq hclosed x hx).parameterFree
  · have hfound := presentable_lookup hs hq hclosed query c hc
    exact ⟨hfound.ty.parameterFree, fun x hx => (hfound.params x hx).parameterFree⟩

/-- A class `Box<T>` with the base `Base<Pair<T, int>>`, the interface `IBox<T?>` and a method `M`
that takes a `T` and a `Box<T>` and gives a `Pair<T?, T>`; and a class `Base<U>` with a field `F` of
the type `U?`. -/
def scopedSymbols : SymbolTable where
  definitions := #[
    { name := "Box", typeParams := ["T"], base? := some ⟨10⟩, interfaces := [⟨12⟩],
      members := [⟨0⟩] },
    { name := "Base", typeParams := ["U"], members := [⟨1⟩] },
    { name := "Pair", typeParams := ["A", "B"] },
    { name := "IBox", isInterface := true, typeParams := ["V"] }]
  members := #[
    { owner := ⟨0⟩, name := "M", shape := .method [⟨8⟩, ⟨13⟩] ⟨14⟩ 0 },
    { owner := ⟨1⟩, name := "F", shape := .field ⟨16⟩ false }]

/-- These types, and `Box<string>` with `null`. -/
def scopedTypes : TypeTable :=
  let t := (TypeTable.parameter ⟨0⟩ 0 {}).2
  let t := (TypeTable.applied ⟨2⟩ [⟨8⟩, Intrinsic.int.id] t).2
  let t := (TypeTable.applied ⟨1⟩ [⟨9⟩] t).2
  let t := (TypeTable.nullable ⟨8⟩ t).2
  let t := (TypeTable.applied ⟨3⟩ [⟨11⟩] t).2
  let t := (TypeTable.applied ⟨0⟩ [⟨8⟩] t).2
  let t := (TypeTable.applied ⟨2⟩ [⟨11⟩, ⟨8⟩] t).2
  let t := (TypeTable.parameter ⟨1⟩ 0 t).2
  let t := (TypeTable.nullable ⟨15⟩ t).2
  let t := (TypeTable.applied ⟨0⟩ [.string] t).2
  (TypeTable.nullable ⟨17⟩ t).2

theorem scoped_scopedSymbols : scopedSymbols.Scoped scopedTypes := by
  have hall : ∀ i < scopedSymbols.definitions.size, ∀ c ∈ scopedSymbols.definition? ⟨i⟩,
      (∀ ty ∈ c.base?.toList ++ c.interfaces,
        scopedSymbols.InScopeTo (SymbolTable.Owns ⟨i⟩ c) scopedTypes 4 ty) ∧
      ∀ id ∈ c.members, ∀ m ∈ scopedSymbols.member? id, ∀ ty ∈ m.valueType :: m.parameters,
        scopedSymbols.InScopeTo (SymbolTable.Owns ⟨i⟩ c) scopedTypes 4 ty := by
    decide +kernel
  have hfound : ∀ {d : DefId} {c : Definition}, scopedSymbols.definition? d = some c →
      d.index < scopedSymbols.definitions.size := fun h => (Array.getElem?_eq_some_iff.1 h).1
  refine ⟨fun hc hb => ?_, fun hc hi => ?_, fun hc hid hm => ?_, fun hc hid hm hx => ?_⟩
  · exact .of_inScopeTo ((hall _ (hfound hc) _ hc).1 _ (by simp [hb]))
  · exact .of_inScopeTo ((hall _ (hfound hc) _ hc).1 _ (by simp [hi]))
  · exact .of_inScopeTo ((hall _ (hfound hc) _ hc).2 _ hid _ hm _ List.mem_cons_self)
  · exact .of_inScopeTo ((hall _ (hfound hc) _ hc).2 _ hid _ hm _ (List.mem_cons_of_mem _ hx))

/-- The method of `Box<string>`, also with `null`, is found with types over `string` only. -/
theorem parameterFree_found_of_scoped :
    (scopedSymbols.Scoped scopedTypes ∧
      scopedSymbols.InScope (fun _ _ => False) scopedTypes ⟨18⟩ ∧ scopedTypes.ParameterFree ⟨18⟩) ∧
    (scopedSymbols.baseChain ⟨17⟩ { types := scopedTypes }).1.length = 3 ∧
    (scopedSymbols.lookup ⟨18⟩ { name := "M" } { types := scopedTypes }).1.candidates.length = 1 ∧
    (∀ c ∈ (scopedSymbols.lookup ⟨18⟩ { name := "M" } { types := scopedTypes }).1.candidates,
      (scopedSymbols.lookup ⟨18⟩ { name := "M" } { types := scopedTypes }).2.types.ParameterFree
        c.ty) := by
  have hto : scopedSymbols.InScopeTo (fun _ _ => False) scopedTypes 3 ⟨18⟩ := by decide +kernel
  have hclosed : scopedSymbols.InScope (fun _ _ => False) scopedTypes ⟨18⟩ := .of_inScopeTo hto
  have hfound := parameterFree_found scoped_scopedSymbols (q := { types := scopedTypes })
    (le_refl scopedTypes) hclosed hclosed.parameterFree
  refine ⟨⟨scoped_scopedSymbols, hclosed, hclosed.parameterFree⟩, by decide +kernel,
    by decide +kernel, fun c hc => ?_⟩
  exact (hfound.2.2 _ c hc).1

end UpdateExpr
