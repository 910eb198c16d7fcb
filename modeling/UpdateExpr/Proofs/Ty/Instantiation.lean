import UpdateExpr.Proofs.Ty.Steady

/-!
# Instantiation is steady

A type with arguments in the place of parameters is found by going down its levels. The limit on the
way is taken from the size of the table, and so changes while the table grows; but an interned type
ends before any of these limits.

## Main results

* `steady_instantiateTo`: two limits that a type does not reach give the same
* `steady_instantiate`, `steady_instantiateAll`: instantiation is steady
* `le_instantiate`, `le_instantiateAll`: instantiation makes a table grow
-/

namespace UpdateExpr

open Substitution

variable {good : TypeTable → TypeId → Prop} {σ : Substitution} {t : TypeTable} {ty : TypeId}

/-- One level of the way down, as a computation that looks at the table once. -/
theorem instantiateTo_succ (n : Nat) : σ.instantiateTo (n + 1) ty = (MonadState.get >>= fun t =>
    match t.shape? ty with
    | some (.parameter owner index) => pure ((σ.get? owner index).getD ty)
    | some (.applied d args) => args.mapM (σ.instantiateTo n) >>= TypeTable.applied d
    | some (.nullable inner) => σ.instantiateTo n inner >>= TypeTable.nullable
    | some (.intrinsic _) | some (.plain _) | none => pure ty : TypeM TypeId) := by
  funext t
  show _ = (match t.shape? ty with
    | some (.parameter owner index) => pure ((σ.get? owner index).getD ty)
    | some (.applied d args) => args.mapM (σ.instantiateTo n) >>= TypeTable.applied d
    | some (.nullable inner) => σ.instantiateTo n inner >>= TypeTable.nullable
    | some (.intrinsic _) | some (.plain _) | none => pure ty : TypeM TypeId) t
  cases hs : t.shape? ty with
  | none =>
    simp only [instantiateTo, hs]
    rfl
  | some shape =>
    simp only [instantiateTo, hs]
    cases shape <;> rfl

theorem mem_args_of_get? {owner : DefId} {index : Nat} (h : σ.get? owner index = some ty) :
    ty ∈ σ.args := by
  unfold Substitution.get? at h
  split at h
  · exact List.mem_of_getElem? h
  · cases h

/-- **Two limits that a type does not reach give the same.** -/
theorem steady_instantiateTo (hg : TypeTable.Hereditary good) {n n' : Nat}
    (hσ : ∀ arg ∈ σ.args, good t arg) (hty : good t ty)
    (hn : n' = n ∨ t.Within n ty ∧ t.Within n' ty) :
    Steady good (σ.instantiateTo n ty) (σ.instantiateTo n' ty) t good := by
  induction n generalizing n' ty t with
  | zero =>
    rcases hn with rfl | ⟨hw, -⟩
    · exact .pure hty
    · exact hw.elim
  | succ n ih =>
    obtain ⟨m, rfl⟩ : ∃ m, n' = m + 1 := by
      rcases hn with rfl | ⟨-, hw⟩
      · exact ⟨n, rfl⟩
      · cases n' with
        | zero => exact hw.elim
        | succ m => exact ⟨m, rfl⟩
    -- For a part, the limits are both one less, on this table and on those that it grows to.
    have hpart : ∀ {shape part t'}, t.shape? ty = some shape → part ∈ shape.parts →
        Grows good t t' →
        Steady good (σ.instantiateTo n part) (σ.instantiateTo m part) t' good := by
      intro shape part t' hs hp hgrow
      refine ih (fun arg harg => hgrow.keep (hσ arg harg)) (hgrow.keep (hg.part hty hs hp)) ?_
      rcases hn with he | ⟨⟨shape', hs', hw⟩, ⟨shape'', hs'', hw'⟩⟩
      · exact .inl (Nat.succ.inj he)
      · obtain rfl := Option.some.inj (hs.symm.trans hs')
        obtain rfl := Option.some.inj (hs.symm.trans hs'')
        exact .inr ⟨(hw part hp).mono hgrow.le, (hw' part hp).mono hgrow.le⟩
    rw [instantiateTo_succ, instantiateTo_succ]
    refine Steady.get fun t' ht' => ?_
    rw [ht'.shape?_eq hty]
    cases hs : t.shape? ty with
    | none => exact .pure hty
    | some shape =>
      cases shape with
      | intrinsic _ => exact .pure hty
      | plain _ => exact .pure hty
      | parameter owner index =>
        have harg : good t ((σ.get? owner index).getD ty) := by
          cases ha : σ.get? owner index with
          | none => exact hty
          | some arg => exact hσ arg (mem_args_of_get? ha)
        exact .pure harg
      | applied d args =>
        have hmap : Steady good (args.mapM (σ.instantiateTo n)) (args.mapM (σ.instantiateTo m)) t
            fun t args => ∀ arg ∈ args, good t arg :=
          Steady.mapM (fun _ _ _ hgrow => hgrow.keep) fun part hp t₁ hgrow => hpart hs hp hgrow
        refine hmap.bind fun args' t₁ _ hargs _ => ?_
        exact steady_applied hg d hargs
      | nullable inner =>
        refine (hpart hs (by simp [TypeShape.parts]) .refl).bind fun inner' t₁ _ hinner _ => ?_
        exact steady_nullable hg hinner

theorem size_le_reach (σ : Substitution) (t : TypeTable) (ty : TypeId) : t.size ≤ σ.reach t ty :=
  (TypeId.le_bound t.size _).trans (TypeId.le_bound _ _)

/-- Instantiation is a computation that looks at the table once before it goes down. -/
theorem instantiate_eq_get : σ.instantiate ty = (MonadState.get >>= fun t =>
    if σ.isEmpty || ty.isIntrinsic then pure ty else σ.instantiateTo (σ.reach t ty) ty :
      TypeM TypeId) := by
  funext t
  show _ = (if σ.isEmpty || ty.isIntrinsic then pure ty
    else σ.instantiateTo (σ.reach t ty) ty : TypeM TypeId) t
  unfold instantiate
  split <;> rfl

/-- **Instantiation is steady.** -/
theorem steady_instantiate (hg : TypeTable.Hereditary good) (hσ : ∀ arg ∈ σ.args, good t arg)
    (hty : good t ty) : Steady good (σ.instantiate ty) (σ.instantiate ty) t good := by
  rw [instantiate_eq_get]
  refine Steady.get fun t' ht' => ?_
  split
  · exact .pure hty
  · -- An interned type has no more levels than its own table has handles, whatever the limit is
    -- later.
    refine steady_instantiateTo hg hσ hty ?_
    obtain ⟨hle, rfl | hk⟩ := ht'
    · exact .inl rfl
    · have hw := (hk hty).within_size
      refine .inr ⟨hw.of_le (size_le_reach σ t ty), hw.of_le ?_⟩
      exact (TypeTable.size_le_of_le hle).trans (size_le_reach σ t' ty)

/-- Some types are instantiated one after another. -/
theorem instantiateAll_eq_mapM (σ : Substitution) (tys : List TypeId) :
    σ.instantiateAll tys = tys.mapM σ.instantiate := by
  induction tys with
  | nil => rfl
  | cons ty tys ih => rw [instantiateAll, List.mapM_cons, ih]

theorem length_instantiateAll (tys : List TypeId) (t : TypeTable) :
    (σ.instantiateAll tys t).1.length = tys.length := by
  induction tys generalizing t with
  | nil => rfl
  | cons ty tys ih =>
    show (σ.instantiateAll tys _).1.length + 1 = _
    rw [ih, List.length_cons]

theorem steady_instantiateAll (hg : TypeTable.Hereditary good) {tys : List TypeId}
    (hσ : ∀ arg ∈ σ.args, good t arg) (htys : ∀ ty ∈ tys, good t ty) :
    Steady good (σ.instantiateAll tys) (σ.instantiateAll tys) t fun t tys =>
      ∀ ty ∈ tys, good t ty := by
  induction tys generalizing t with
  | nil => exact .pure nofun
  | cons ty tys ih =>
    rw [List.forall_mem_cons] at htys
    refine (steady_instantiate hg hσ htys.1).bind fun ty' t₁ hgrow₁ hty' _ => ?_
    refine (ih (fun arg harg => hgrow₁.keep (hσ arg harg))
      fun ty hty => hgrow₁.keep (htys.2 ty hty)).bind fun tys' t₂ hgrow₂ htys' _ => ?_
    exact .pure (List.forall_mem_cons.2 ⟨hgrow₂.keep hty', htys'⟩)

theorem le_instantiate (σ : Substitution) (ty : TypeId) (t : TypeTable) :
    t ≤ (σ.instantiate ty t).2 :=
  (steady_instantiate TypeTable.hereditary_true (fun _ _ => trivial) trivial).grows.le

theorem le_instantiateAll (σ : Substitution) (tys : List TypeId) (t : TypeTable) :
    t ≤ (σ.instantiateAll tys t).2 :=
  (steady_instantiateAll TypeTable.hereditary_true (fun _ _ => trivial) fun _ _ => trivial).grows.le

end UpdateExpr
