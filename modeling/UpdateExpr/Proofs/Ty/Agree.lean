import UpdateExpr.Proofs.Ty.Alike
import UpdateExpr.Proofs.Ty.Instantiation

/-!
# Two runs that agree

The same question is asked in two states whose tables have grown in different ways. The two runs
agree if both tables grow by types that mean the same, if the runs do the same to all that a state
holds besides its table, and if their results are related. A relation between results speaks of both
tables, as they are in the end, and what is alike before stays alike.

One table may know a type already that is new to the other. So it is not asked that a type is new on
both sides, only that the other table has a like one in the end.

## Main definitions

* `HasRest`: what a state holds besides its table
* `Grown`: two tables grow by types that mean the same
* `Agree`: two runs agree

## Main results

* `Agree.bind`, `Agree.ofTypes`, `Agree.lift`: runs put together
* `Agree.mapM`, `Agree.filterMapM`, `Agree.anyM`: one after another for the elements of two lists
* `agree_intern`, `agree_applied`, `agree_nullable`: asking for a type
* `agree_instantiate`: type arguments for type parameters
-/

namespace UpdateExpr

open HasTypes (types)

/-- What a state holds besides its table. -/
class HasRest (σ : Type) where
  Rest : Type
  rest : σ → Rest

instance : HasRest TypeTable :=
  ⟨Unit, fun _ => ()⟩

instance : HasRest QueryState :=
  ⟨List UseSite, QueryState.notes⟩

open HasRest (rest)

/-- The tables of two states. -/
abbrev tables {σ : Type} [HasTypes σ] (s s' : σ) : Tables :=
  (types s, types s')

/-- Two tables grow: what is new to the one is like a type of the other. -/
structure Grown (w w' : Tables) : Prop where
  le : w ≤ w'
  left : ∀ a, (w'.1.shape? a).isSome → (w.1.shape? a).isSome ∨ ∃ a', Alike w' a a'
  right : ∀ a', (w'.2.shape? a').isSome → (w.2.shape? a').isSome ∨ ∃ a, Alike w' a a'

theorem Grown.refl (w : Tables) : Grown w w :=
  ⟨le_refl w, fun _ h => .inl h, fun _ h => .inl h⟩

theorem Grown.trans {w w' w'' : Tables} (h : Grown w w') (h' : Grown w' w'') : Grown w w'' where
  le := h.le.trans h'.le
  left a ha := by
    rcases h'.left a ha with ha' | hlike
    · exact (h.left a ha').imp id fun ⟨a', hlike⟩ => ⟨a', hlike.mono h'.le⟩
    · exact .inr hlike
  right a' ha := by
    rcases h'.right a' ha with ha' | hlike
    · exact (h.right a' ha').imp id fun ⟨a, hlike⟩ => ⟨a, hlike.mono h'.le⟩
    · exact .inr hlike

/-- Two runs from two states agree: both tables grow, what is besides them stays the same on both
sides, and the results are related. -/
structure Agree {σ α β : Type} [HasTypes σ] [HasRest σ] (r : Tables → α → β → Prop)
    (m : StateM σ α) (m' : StateM σ β) (s s' : σ) : Prop where
  grown : Grown (tables s s') (tables (m s).2 (m' s').2)
  rest : rest s = rest s' → rest (m s).2 = rest (m' s').2
  post : r (tables (m s).2 (m' s').2) (m s).1 (m' s').1

/-- Both results are the same. -/
def Equal {α : Type} : Tables → α → α → Prop :=
  fun _ => Eq

/-- The elements of two lists are related one by one. -/
def Each {α β : Type} (r : Tables → α → β → Prop) : Tables → List α → List β → Prop :=
  fun w => List.Forall₂ (r w)

/-- There is a result on both sides, and they are related, or there is none on either. -/
def Maybe {α β : Type} (r : Tables → α → β → Prop) : Tables → Option α → Option β → Prop :=
  fun w => Option.Rel (r w)

/-- What is related stays so while both tables grow. -/
def Lasting {α β : Type} (r : Tables → α → β → Prop) : Prop :=
  ∀ ⦃w w' a b⦄, r w a b → w ≤ w' → r w' a b

theorem lasting_alike : Lasting Alike :=
  fun _ _ _ _ h hle => h.mono hle

theorem Lasting.each {α β : Type} {r : Tables → α → β → Prop} (h : Lasting r) : Lasting (Each r) :=
  fun _ _ _ _ hr hle => List.Forall₂.imp (fun _ _ hab => h hab hle) hr

theorem Lasting.maybe {α β : Type} {r : Tables → α → β → Prop} (h : Lasting r) :
    Lasting (Maybe r) := by
  intro w w' a b hr hle
  cases hr with
  | none => exact .none
  | some hab => exact .some (h hab hle)

namespace Agree

variable {σ α β γ δ : Type} [HasTypes σ] [HasRest σ] {r : Tables → α → β → Prop}
  {q : Tables → γ → δ → Prop} {m : StateM σ α} {m' : StateM σ β} {f : α → StateM σ γ}
  {f' : β → StateM σ δ} {s s' : σ}

theorem le (h : Agree r m m' s s') : tables s s' ≤ tables (m s).2 (m' s').2 :=
  h.grown.le

theorem pure {a : α} {b : β} (h : r (tables s s') a b) : Agree r (pure a) (pure b) s s' where
  grown := .refl _
  rest h := h
  post := h

/-- **One run after another.** -/
theorem bind (hm : Agree r m m' s s')
    (hf : ∀ a b s₁ s₁', tables s s' ≤ tables s₁ s₁' → r (tables s₁ s₁') a b →
      Agree q (f a) (f' b) s₁ s₁') : Agree q (m >>= f) (m' >>= f') s s' := by
  have hf' := hf _ _ _ _ hm.le hm.post
  exact ⟨hm.grown.trans hf'.grown, fun h => hf'.rest (hm.rest h), hf'.post⟩

theorem ofTypes {q₀ q₀' : QueryState} {f f' : TypeTable → QueryM α}
    {r : Tables → α → α → Prop} (h : Agree r (f q₀.types) (f' q₀'.types) q₀ q₀') :
    Agree r (QueryM.types >>= f) (QueryM.types >>= f') q₀ q₀' :=
  ⟨h.grown, h.rest, h.post⟩

/-- A computation on types as part of a question. -/
theorem lift {m : TypeM α} {m' : TypeM β} {q₀ q₀' : QueryState}
    (h : Agree r m m' q₀.types q₀'.types) :
    Agree r (liftM m : QueryM α) (liftM m' : QueryM β) q₀ q₀' where
  grown := h.grown
  rest h := h
  post := h.post

theorem note {n : UseSite} {q₀ q₀' : QueryState} :
    Agree Equal (QueryM.note n) (QueryM.note n) q₀ q₀' where
  grown := .refl _
  rest h := congrArg (UseSite.add · n) h
  post := rfl

theorem get {t t' : TypeTable} {f : TypeTable → TypeM α} {f' : TypeTable → TypeM β}
    (h : Agree r (f t) (f' t') t t') :
    Agree r (MonadState.get >>= f) (MonadState.get >>= f') t t' :=
  ⟨h.grown, h.rest, h.post⟩

section Lists

variable {rel : α → β → Prop} {xs : List α} {ys : List β}

/-- Runs one after another for the elements of two lists. -/
theorem mapM {g : α → StateM σ γ} {g' : β → StateM σ δ} (hq : Lasting q)
    (hxs : List.Forall₂ rel xs ys)
    (h : ∀ x y, x ∈ xs → rel x y → ∀ s₁ s₁', tables s s' ≤ tables s₁ s₁' →
      Agree q (g x) (g' y) s₁ s₁') :
    Agree (Each q) (xs.mapM g) (ys.mapM g') s s' := by
  induction hxs generalizing s s' with
  | nil =>
    rw [List.mapM_nil, List.mapM_nil]
    exact .pure .nil
  | cons hxy _ ih =>
    rw [List.mapM_cons, List.mapM_cons]
    refine (h _ _ (by simp) hxy s s' (le_refl _)).bind fun b b' s₁ s₁' hle₁ hb => ?_
    refine (ih fun x y hx hxy s₂ s₂' hle₂ =>
      h x y (List.mem_cons_of_mem _ hx) hxy s₂ s₂' (hle₁.trans hle₂)).bind ?_
    intro bs bs' s₂ s₂' hle₂ hbs
    exact .pure (.cons (hq hb hle₂) hbs)

/-- Runs one after another, of which some give nothing. -/
theorem filterMapM {g : α → StateM σ (Option γ)} {g' : β → StateM σ (Option δ)} (hq : Lasting q)
    (hxs : List.Forall₂ rel xs ys)
    (h : ∀ x y, rel x y → ∀ s₁ s₁', tables s s' ≤ tables s₁ s₁' →
      Agree (Maybe q) (g x) (g' y) s₁ s₁') :
    Agree (Each q) (xs.filterMapM g) (ys.filterMapM g') s s' := by
  induction hxs generalizing s s' with
  | nil =>
    rw [List.filterMapM_nil, List.filterMapM_nil]
    exact .pure .nil
  | cons hxy _ ih =>
    rw [List.filterMapM_cons, List.filterMapM_cons]
    refine (h _ _ hxy s s' (le_refl _)).bind fun b? b?' s₁ s₁' hle₁ hb => ?_
    have hrest := ih fun x y hxy s₂ s₂' hle₂ => h x y hxy s₂ s₂' (hle₁.trans hle₂)
    cases hb with
    | none => exact hrest
    | some hb =>
      refine hrest.bind fun bs bs' s₂ s₂' hle₂ hbs => ?_
      exact .pure (.cons (hq hb hle₂) hbs)

/-- A question for the elements of two lists, up to the first ones where the answer is yes. -/
theorem anyM {p : α → StateM σ Bool} {p' : β → StateM σ Bool} (hxs : List.Forall₂ rel xs ys)
    (h : ∀ x y, rel x y → ∀ s₁ s₁', tables s s' ≤ tables s₁ s₁' →
      Agree Equal (p x) (p' y) s₁ s₁') :
    Agree Equal (xs.anyM p) (ys.anyM p') s s' := by
  induction hxs generalizing s s' with
  | nil => exact .pure rfl
  | cons hxy _ ih =>
    rw [List.anyM_cons, List.anyM_cons]
    refine (h _ _ hxy s s' (le_refl _)).bind fun answer answer' s₁ s₁' hle₁ hanswer => ?_
    cases hanswer
    cases answer with
    | true => exact .pure rfl
    | false => exact ih fun x y hxy s₂ s₂' hle₂ => h x y hxy s₂ s₂' (hle₁.trans hle₂)

end Lists

/-- One question, and another one where the answer to the first is no. -/
theorem orM {x x' y y' : StateM σ Bool} (hx : Agree Equal x x' s s')
    (hy : ∀ s₁ s₁', tables s s' ≤ tables s₁ s₁' → Agree Equal y y' s₁ s₁') :
    Agree Equal (x <||> y) (x' <||> y') s s' := by
  refine hx.bind fun answer answer' s₁ s₁' hle hanswer => ?_
  cases hanswer
  cases answer with
  | true => exact .pure rfl
  | false => exact hy s₁ s₁' hle

end Agree

/-! ## Asking for types -/

section Types

variable {t t' : TypeTable} {shape shape' : TypeShape}

/-- **Like shapes get like handles.** -/
theorem alike_intern (h : shape.Alike (Alike (t, t')) shape') :
    Alike ((TypeTable.intern shape t).2, (TypeTable.intern shape' t').2)
      (TypeTable.intern shape t).1 (TypeTable.intern shape' t').1 := by
  refine alike_of_shapes (TypeTable.shape?_intern t shape) (TypeTable.shape?_intern t' shape') ?_
  exact h.imp fun _ _ hp => hp.mono ⟨TypeTable.le_intern t shape, TypeTable.le_intern t' shape'⟩

/-- A handle with a shape was there, or it is the one that was asked for. -/
theorem eq_of_isSome_shape?_intern {a : TypeId}
    (h : ((TypeTable.intern shape t).2.shape? a).isSome) :
    (t.shape? a).isSome ∨ a = (TypeTable.intern shape t).1 := by
  obtain ⟨s, hs⟩ := Option.isSome_iff_exists.1 h
  rcases TypeTable.shape?_intern_cases hs with hs' | rfl
  · exact .inl (Option.isSome_iff_exists.2 ⟨s, hs'⟩)
  · exact .inr (TypeTable.shape?_injective hs (TypeTable.shape?_intern t s))

theorem agree_intern (h : shape.Alike (Alike (t, t')) shape') :
    Agree Alike (TypeTable.intern shape) (TypeTable.intern shape') t t' where
  grown := by
    refine ⟨⟨TypeTable.le_intern t shape, TypeTable.le_intern t' shape'⟩, fun a ha => ?_,
      fun a' ha => ?_⟩
    · refine (eq_of_isSome_shape?_intern ha).imp id ?_
      rintro rfl
      exact ⟨_, alike_intern h⟩
    · refine (eq_of_isSome_shape?_intern ha).imp id ?_
      rintro rfl
      exact ⟨_, alike_intern h⟩
  rest _ := rfl
  post := alike_intern h

theorem agree_applied (d : DefId) {args args' : List TypeId}
    (h : List.Forall₂ (Alike (t, t')) args args') :
    Agree Alike (TypeTable.applied d args) (TypeTable.applied d args') t t' := by
  cases h with
  | nil => exact agree_intern (.plain d)
  | cons h hs => exact agree_intern (.applied d (.cons h hs))

theorem agree_parameter (d : DefId) (index : Nat) :
    Agree Alike (TypeTable.parameter d index) (TypeTable.parameter d index) t t' :=
  agree_intern (.parameter d index)

theorem agree_nullable {ty ty' : TypeId} (h : Alike (t, t') ty ty') :
    Agree Alike (TypeTable.nullable ty) (TypeTable.nullable ty') t t' := by
  rw [nullable_eq_get, nullable_eq_get]
  refine Agree.get ?_
  rw [h.isError_eq, h.isSome_nullableInner?_eq]
  split
  · exact .pure h
  · exact agree_intern (.nullable h)

end Types

/-! ## Type arguments for type parameters -/

section Instantiation

open Substitution

/-- Substitutions of two tables have like arguments for one definition. -/
structure Substitution.Matches (w : Tables) (σ σ' : Substitution) : Prop where
  owner : σ.owner = σ'.owner
  args : List.Forall₂ (Alike w) σ.args σ'.args

variable {σ σ' : Substitution} {t t' : TypeTable} {w w' : Tables} {ty ty' : TypeId} {n m m' : Nat}

theorem Substitution.Matches.mono (h : Substitution.Matches w σ σ') (hle : w ≤ w') :
    Substitution.Matches w' σ σ' :=
  ⟨h.owner, lasting_alike.each h.args hle⟩

theorem Substitution.Matches.isEmpty_eq (h : Substitution.Matches w σ σ') :
    σ.isEmpty = σ'.isEmpty := by
  have hargs := h.args
  rw [Substitution.isEmpty, Substitution.isEmpty]
  generalize σ.args = args, σ'.args = args' at hargs ⊢
  cases hargs <;> rfl

theorem Substitution.Matches.get? (h : Substitution.Matches w σ σ') (owner : DefId)
    (index : Nat) : Option.Rel (Alike w) (σ.get? owner index) (σ'.get? owner index) := by
  rw [Substitution.get?, Substitution.get?, h.owner]
  split
  · exact rel_getElem? h.args index
  · exact .none

/-- **Limits that a type does not reach give like types.** -/
theorem agree_instantiateTo (hσ : Substitution.Matches (t, t') σ σ') (hty : Alike (t, t') ty ty')
    (hn : t.Within n ty) (hm : n ≤ m) (hm' : n ≤ m') :
    Agree Alike (σ.instantiateTo m ty) (σ'.instantiateTo m' ty') t t' := by
  induction n generalizing m m' ty ty' t t' with
  | zero => exact hn.elim
  | succ n ih =>
    obtain ⟨k, rfl⟩ : ∃ k, m = k + 1 := ⟨m - 1, by omega⟩
    obtain ⟨k', rfl⟩ : ∃ k', m' = k' + 1 := ⟨m' - 1, by omega⟩
    rw [instantiateTo_succ, instantiateTo_succ]
    refine Agree.get ?_
    obtain ⟨shape, shape', hs, hs', hsh⟩ := hty.shapes
    rw [hs, hs']
    -- For a part, the limits are both one less, on these tables and on those that they grow to.
    have hpart : ∀ {part part' t₁ t₁'}, part ∈ shape.parts → Alike (t, t') part part' →
        tables t t' ≤ tables t₁ t₁' →
        Agree Alike (σ.instantiateTo k part) (σ'.instantiateTo k' part') t₁ t₁' := by
      intro part part' t₁ t₁' hp halike hle
      obtain ⟨s, hs'', hw⟩ := hn
      obtain rfl := Option.some.inj (hs.symm.trans hs'')
      have hle₁ : n ≤ k := by omega
      have hle₂ : n ≤ k' := by omega
      exact ih (hσ.mono hle) (halike.mono hle) ((hw part hp).mono hle.1) hle₁ hle₂
    cases hsh with
    | intrinsic k => exact .pure hty
    | plain d => exact .pure hty
    | parameter owner index =>
      have harg := hσ.get? owner index
      dsimp only
      generalize σ.get? owner index = arg, σ'.get? owner index = arg' at harg
      cases harg with
      | none => exact .pure hty
      | some harg => exact .pure harg
    | applied d hargs =>
      have hmap : Agree (Each Alike) _ _ t t' := Agree.mapM lasting_alike hargs
        fun part part' hp halike t₁ t₁' hle => hpart hp halike hle
      exact hmap.bind fun args args' t₁ t₁' _ hargs => agree_applied d hargs
    | nullable hinner =>
      refine (hpart (by simp [TypeShape.parts]) hinner (le_refl _)).bind ?_
      intro inner inner' t₁ t₁' _ hinner
      exact agree_nullable hinner

/-- **Instantiation agrees.** -/
theorem agree_instantiate (hσ : Substitution.Matches (t, t') σ σ') (hty : Alike (t, t') ty ty') :
    Agree Alike (σ.instantiate ty) (σ'.instantiate ty') t t' := by
  rw [instantiate_eq_get, instantiate_eq_get]
  refine Agree.get ?_
  rw [hσ.isEmpty_eq, hty.isIntrinsic_eq]
  split
  · exact .pure hty
  · obtain ⟨n, hn, -, hle, hle'⟩ := hty.exists_within
    exact agree_instantiateTo hσ hty hn (hle.trans (size_le_reach σ t ty))
      (hle'.trans (size_le_reach σ' t' ty'))

theorem agree_instantiateAll {tys tys' : List TypeId} (hσ : Substitution.Matches w σ σ')
    (htys : List.Forall₂ (Alike w) tys tys') (hw : w ≤ tables t t') :
    Agree (Each Alike) (σ.instantiateAll tys) (σ'.instantiateAll tys') t t' := by
  induction htys generalizing t t' with
  | nil => exact .pure .nil
  | cons hty _ ih =>
    refine (agree_instantiate (hσ.mono hw) (hty.mono hw)).bind fun ty ty' t₁ t₁' hle₁ hty => ?_
    refine (ih (hw.trans hle₁)).bind fun tys tys' t₂ t₂' hle₂ htys => ?_
    exact .pure (.cons (hty.mono hle₂) htys)

end Instantiation

end UpdateExpr
