import UpdateExpr.Proofs.Ty.Growth
import UpdateExpr.Symbol.Query

/-!
# Steady computations

A computation on types may add some to the table. It is steady if it makes the table grow, keeps a
property of types, and gives the same answer whenever it is asked again: on the table that it left,
or on any that has grown from it, without adding anything. So an answer that was got on the way
holds at the end as well.

Some computations take a limit from the size of the table, and the same question asked again then
runs with another limit. Hence steadiness is stated for two computations, the one that is run and
the one that is asked again.

## Main definitions

* `Answers`: the answer to a question is final
* `Grows`: a table grows and keeps a property of types
* `Steady`: a computation is steady

## Main results

* `Steady.bind`, `Steady.get`, `Steady.ofTypes`, `Steady.lift`: computations put together
* `Steady.mapM`, `Steady.filterMapM`, `Steady.anyM`: one after another for the elements of a list
* `steady_intern`, `steady_applied`, `steady_nullable`: asking for a type
-/

namespace UpdateExpr

/-! ## Runs -/

/-- One computation after another, from a state. -/
theorem bind_apply {σ α β : Type} (m : StateM σ α) (f : α → StateM σ β) (s : σ) :
    (m >>= f) s = f (m s).1 (m s).2 := rfl

/-- A computation that only answers keeps the state. -/
theorem pure_apply {σ α : Type} (a : α) (s : σ) : (pure a : StateM σ α) s = (a, s) := rfl

/-- A question may look at the table that it is asked on. -/
theorem ofTypes_apply {α : Type} (f : TypeTable → QueryM α) (q : QueryState) :
    (QueryM.types >>= f) q = f q.types q := rfl

/-- The second of two questions is asked where the answer to the first is no. -/
theorem orM_apply {σ : Type} (x y : StateM σ Bool) (s : σ) :
    (x <||> y) s = if (x s).1 = true then (true, (x s).2) else y (x s).2 := by
  show (match toBool (x s).1 with
    | true => pure (x s).1
    | false => y : StateM σ Bool) (x s).2 = _
  cases (x s).1 <;> rfl

/-- A question whose answer is known is asked no further if that is yes. -/
theorem pure_orM_apply {σ : Type} (p : Bool) (y : StateM σ Bool) (s : σ) :
    (pure p <||> y) s = if p = true then (true, s) else y s :=
  orM_apply _ _ _

/-! ## Steadiness -/

/-- A state that holds a table of types. -/
class HasTypes (σ : Type) where
  types : σ → TypeTable

instance : HasTypes TypeTable :=
  ⟨id⟩

instance : HasTypes QueryState :=
  ⟨QueryState.types⟩

open HasTypes (types)

/-- From a table on, a computation gives an answer and adds nothing. -/
def Answers {σ α : Type} [HasTypes σ] (m : StateM σ α) (t : TypeTable) (a : α) : Prop :=
  ∀ s : σ, t ≤ types s → (m s).1 = a ∧ types (m s).2 = types s

/-- A table grows and keeps a property of types. -/
structure Grows (good : TypeTable → TypeId → Prop) (t t' : TypeTable) : Prop where
  le : t ≤ t'
  keep : ∀ {ty}, good t ty → good t' ty

/-- Only interned types have a property. -/
def Known (good : TypeTable → TypeId → Prop) : Prop :=
  ∀ {t ty}, good t ty → t.Interned ty

/-- A table that may stand in the place of another, as far as types with a property go. -/
def Later (good : TypeTable → TypeId → Prop) (t t' : TypeTable) : Prop :=
  t ≤ t' ∧ (t' = t ∨ Known good)

/-- A computation makes the table grow, keeps a property of types, and gives a result of a kind. If
the property is one of interned types, the other computation gives that result from then on. -/
structure Steady {σ α : Type} [HasTypes σ] (good : TypeTable → TypeId → Prop) (m m' : StateM σ α)
    (s : σ) (post : TypeTable → α → Prop) : Prop where
  grows : Grows good (types s) (types (m s).2)
  post : post (types (m s).2) (m s).1
  answers : Known good → Answers m' (types (m s).2) (m s).1

section Growth

variable {good : TypeTable → TypeId → Prop} {t t' t'' : TypeTable} {ty : TypeId}

theorem Grows.refl : Grows good t t :=
  ⟨le_refl t, id⟩

theorem Grows.trans (h : Grows good t t') (h' : Grows good t' t'') : Grows good t t'' :=
  ⟨h.le.trans h'.le, fun hg => h'.keep (h.keep hg)⟩

theorem Later.refl : Later good t t :=
  ⟨le_refl t, .inl rfl⟩

theorem Answers.mono {σ α : Type} [HasTypes σ] {m : StateM σ α} {a : α} (h : Answers m t a)
    (ht : t ≤ t') : Answers m t' a :=
  fun s hs => h s (ht.trans hs)

/-- A type with the property has one shape in both tables. -/
theorem Later.shape?_eq (h : Later good t t') (hg : good t ty) : t'.shape? ty = t.shape? ty := by
  rcases h.2 with rfl | hk
  · rfl
  · obtain ⟨shape, hs, -⟩ := (hk hg).shape?
    rw [hs, h.1 ty shape hs]

theorem Later.nullableInner?_eq (h : Later good t t') (hg : good t ty) :
    t'.nullableInner? ty = t.nullableInner? ty := by
  rw [TypeTable.nullableInner?, TypeTable.nullableInner?, h.shape?_eq hg]

theorem Later.strip_eq (h : Later good t t') (hg : good t ty) : t'.strip ty = t.strip ty := by
  rw [TypeTable.strip, TypeTable.strip, h.nullableInner?_eq hg]

theorem Later.defAndArgs?_eq (h : Later good t t') (hg : good t ty) :
    t'.defAndArgs? ty = t.defAndArgs? ty := by
  rw [TypeTable.defAndArgs?, TypeTable.defAndArgs?, h.shape?_eq hg]

theorem Later.intrinsic?_eq (h : Later good t t') (hg : good t ty) :
    t'.intrinsic? ty = t.intrinsic? ty := by
  rw [TypeTable.intrinsic?, TypeTable.intrinsic?, h.shape?_eq hg]

end Growth

namespace Steady

variable {σ α β : Type} [HasTypes σ] {good : TypeTable → TypeId → Prop} {m m' : StateM σ α}
  {f f' : α → StateM σ β} {s : σ} {post : TypeTable → α → Prop} {result : TypeTable → β → Prop}

theorem pure {a : α} (h : post (types s) a) : Steady good (pure a) (pure a) s post where
  grows := .refl
  post := h
  answers _ _ _ := ⟨rfl, rfl⟩

theorem also {p : α → Prop} (h : Steady good m m' s post) (hp : p (m s).1) :
    Steady good m m' s fun t a => post t a ∧ p a :=
  ⟨h.grows, ⟨h.post, hp⟩, h.answers⟩

/-- **One computation after another.** -/
theorem bind (hm : Steady good m m' s post)
    (hf : ∀ a s', Grows good (types s) (types s') → post (types s') a →
      (Known good → Answers m' (types s') a) → Steady good (f a) (f' a) s' result) :
    Steady good (m >>= f) (m' >>= f') s result := by
  have hf' := hf _ _ hm.grows hm.post hm.answers
  refine ⟨hm.grows.trans hf'.grows, hf'.post, fun hk s'' hs'' => ?_⟩
  obtain ⟨ha, ht⟩ := hm.answers hk s'' (hf'.grows.le.trans hs'')
  have hb := hf'.answers hk (m' s'').2 (by rw [ht]; exact hs'')
  rw [ht] at hb
  show (f' (m' s'').1 (m' s'').2).1 = _ ∧ types (f' (m' s'').1 (m' s'').2).2 = _
  rw [ha]
  exact hb

/-- **A computation may look at the table.** -/
theorem look {f k : TypeTable → StateM σ β}
    (h : ∀ t, Later good (types s) t → Steady good (f (types s)) (k t) s result) :
    Steady good (fun s => f (types s) s) (fun s => k (types s) s) s result := by
  have h₀ := h _ .refl
  refine ⟨h₀.grows, h₀.post, fun hk s' hs' => ?_⟩
  exact (h _ ⟨h₀.grows.le.trans hs', .inr hk⟩).answers hk s' hs'

theorem get {t : TypeTable} {f k : TypeTable → TypeM β}
    (h : ∀ t', Later good t t' → Steady good (f t) (k t') t result) :
    Steady good (MonadState.get >>= f) (MonadState.get >>= k) t result :=
  look h

theorem ofTypes {q : QueryState} {f k : TypeTable → QueryM β}
    (h : ∀ t, Later good q.types t → Steady good (f q.types) (k t) q result) :
    Steady good (QueryM.types >>= f) (QueryM.types >>= k) q result :=
  look h

/-- Computations one after another for all elements of a list. -/
theorem mapM {γ : Type} {g g' : γ → StateM σ β} {xs : List γ}
    (hpost : ∀ t t' b, Grows good t t' → result t b → result t' b)
    (h : ∀ x ∈ xs, ∀ s', Grows good (types s) (types s') →
      Steady good (g x) (g' x) s' result) :
    Steady good (xs.mapM g) (xs.mapM g') s fun t bs => ∀ b ∈ bs, result t b := by
  induction xs generalizing s with
  | nil =>
    rw [List.mapM_nil, List.mapM_nil]
    exact .pure nofun
  | cons x xs ih =>
    rw [List.mapM_cons, List.mapM_cons]
    refine (h x (by simp) s .refl).bind fun b s₁ hg₁ hb _ => ?_
    refine (ih fun y hy s' hs' => h y (List.mem_cons_of_mem _ hy) s' (hg₁.trans hs')).bind ?_
    intro bs s₂ hg₂ hbs _
    exact .pure (List.forall_mem_cons.2 ⟨hpost _ _ _ hg₂ hb, hbs⟩)

/-- Computations one after another, of which some give nothing. -/
theorem filterMapM {γ : Type} {g g' : γ → StateM σ (Option β)} {xs : List γ}
    (hpost : ∀ t t' b, Grows good t t' → result t b → result t' b)
    (h : ∀ x ∈ xs, ∀ s', Grows good (types s) (types s') →
      Steady good (g x) (g' x) s' fun t b? => ∀ b ∈ b?, result t b) :
    Steady good (xs.filterMapM g) (xs.filterMapM g') s fun t bs => ∀ b ∈ bs, result t b := by
  induction xs generalizing s with
  | nil =>
    rw [List.filterMapM_nil, List.filterMapM_nil]
    exact .pure nofun
  | cons x xs ih =>
    rw [List.filterMapM_cons, List.filterMapM_cons]
    refine (h x (by simp) s .refl).bind fun b? s₁ hg₁ hb _ => ?_
    have hrest : Steady good (xs.filterMapM g) (xs.filterMapM g') s₁
        fun t bs => ∀ b ∈ bs, result t b :=
      ih fun y hy s' hs' => h y (List.mem_cons_of_mem _ hy) s' (hg₁.trans hs')
    cases b? with
    | none => exact hrest
    | some b =>
      refine hrest.bind fun bs s₂ hg₂ hbs _ => ?_
      exact .pure (List.forall_mem_cons.2 ⟨hpost _ _ _ hg₂ (hb b rfl), hbs⟩)

/-- A question for the elements of a list, up to the first one where the answer is yes. -/
theorem anyM {γ : Type} {p p' : γ → StateM σ Bool} {xs : List γ}
    (h : ∀ x ∈ xs, ∀ s', Grows good (types s) (types s') →
      Steady good (p x) (p' x) s' fun _ _ => True) :
    Steady good (xs.anyM p) (xs.anyM p') s fun _ _ => True := by
  induction xs generalizing s with
  | nil => exact .pure trivial
  | cons x xs ih =>
    rw [List.anyM_cons, List.anyM_cons]
    refine (h x (by simp) s .refl).bind fun answer s₁ hg₁ _ _ => ?_
    cases answer with
    | true => exact .pure trivial
    | false => exact ih fun y hy s' hs' => h y (List.mem_cons_of_mem _ hy) s' (hg₁.trans hs')

/-- One question, and another one where the answer to the first is no. -/
theorem orM {x x' y y' : StateM σ Bool} (hx : Steady good x x' s fun _ _ => True)
    (hy : ∀ s', Grows good (types s) (types s') → Steady good y y' s' fun _ _ => True) :
    Steady good (x <||> y) (x' <||> y') s fun _ _ => True := by
  refine hx.bind fun answer s' hgrow _ _ => ?_
  cases answer with
  | true => exact .pure trivial
  | false => exact hy s' hgrow

/-- A note is of no matter to the table. -/
theorem note {n : UseSite} {q : QueryState} :
    Steady good (QueryM.note n) (QueryM.note n) q fun _ _ => True where
  grows := .refl
  post := trivial
  answers _ _ _ := ⟨rfl, rfl⟩

/-- A computation on types as part of a question. -/
theorem lift {m m' : TypeM α} {q : QueryState} (h : Steady good m m' q.types post) :
    Steady good (liftM m : QueryM α) (liftM m') q post where
  grows := h.grows
  post := h.post
  answers hk q' hq' := h.answers hk q'.types hq'

end Steady

theorem answers_of_lift {α : Type} {m : TypeM α} {t : TypeTable} {a : α}
    (h : Answers (liftM m : QueryM α) t a) : Answers m t a :=
  fun t' ht' => h { types := t' } ht'

/-! ## Asking for types -/

section Types

variable {good : TypeTable → TypeId → Prop} {t : TypeTable} {shape : TypeShape}

theorem steady_intern (hg : TypeTable.Hereditary good) (hs : ∀ k, shape ≠ .intrinsic k)
    (hp : ∀ part ∈ shape.parts, good t part) :
    Steady good (TypeTable.intern shape) (TypeTable.intern shape) t good where
  grows := ⟨TypeTable.le_intern t shape, hg.keep hp⟩
  post := hg.intern hs hp
  answers _ t' ht' := by
    have h : TypeTable.intern shape t' = _ :=
      TypeTable.intern_of_shape? (ht' _ _ (TypeTable.shape?_intern t shape))
    rw [h]
    exact ⟨rfl, rfl⟩

theorem steady_applied (hg : TypeTable.Hereditary good) (d : DefId) {args : List TypeId}
    (ha : ∀ arg ∈ args, good t arg) :
    Steady good (TypeTable.applied d args) (TypeTable.applied d args) t good := by
  cases args with
  | nil => exact steady_intern hg (by simp) nofun
  | cons arg args => exact steady_intern hg (by simp) ha

theorem steady_parameter (hg : TypeTable.Hereditary good) (d : DefId) (index : Nat) :
    Steady good (TypeTable.parameter d index) (TypeTable.parameter d index) t good :=
  steady_intern hg (by simp) nofun

/-- To add `null` to a type is a computation that looks at the table once. -/
theorem nullable_eq_get (ty : TypeId) : TypeTable.nullable ty = (MonadState.get >>= fun t =>
    if ty.isError || (t.nullableInner? ty).isSome then pure ty
      else TypeTable.intern (.nullable ty) : TypeM TypeId) := by
  funext t
  show _ = (if ty.isError || (t.nullableInner? ty).isSome then pure ty
    else TypeTable.intern (.nullable ty) : TypeM TypeId) t
  unfold TypeTable.nullable
  split <;> rfl

theorem steady_nullable (hg : TypeTable.Hereditary good) {ty : TypeId} (h : good t ty) :
    Steady good (TypeTable.nullable ty) (TypeTable.nullable ty) t good := by
  rw [nullable_eq_get]
  refine Steady.get fun t' ht' => ?_
  rw [ht'.nullableInner?_eq h]
  split
  · exact .pure h
  · exact steady_intern hg (by simp) (by simpa [TypeShape.parts] using h)

end Types

end UpdateExpr
