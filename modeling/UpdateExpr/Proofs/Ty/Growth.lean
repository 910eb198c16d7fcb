import Mathlib.Data.Finset.Card
import Mathlib.Data.Fintype.Card
import Mathlib.Order.Monotone.Basic
import UpdateExpr.Ty.Table

/-!
# Growing tables of types

A table of types only grows: a handle that was given out keeps its shape. So what is said of a type
by way of the handles that it is built from stays true. Two such properties matter: that a type is
built from known handles all the way down, and that it does not mention a certain type.

## Main definitions

* `t ≤ t'`: all handles of a table keep their shapes in another
* `TypeTable.Mentions`: a type is, or is built from, a certain one
* `TypeTable.Interned`: a type is built from known handles only
* `TypeTable.Within`: it is built so in at most a number of levels
* `TypeTable.Hereditary`: a property of types that passes to parts, and from parts to wholes

## Main results

* `TypeTable.le_intern`: asking for a shape makes a table grow
* `TypeTable.Interned.within_size`: an interned type has no more levels than its table has handles
* `TypeTable.hereditary_interned`, `TypeTable.hereditary_not_mentions`: the two properties
-/

namespace UpdateExpr

namespace TypeTable

/-- All handles of a table keep their shapes in another. -/
instance : Preorder TypeTable where
  le t t' := ∀ ty shape, t.shape? ty = some shape → t'.shape? ty = some shape
  le_refl _ _ _ h := h
  le_trans _ _ _ h h' ty shape hs := h' ty shape (h ty shape hs)

variable {t t' : TypeTable} {ty target : TypeId} {shape : TypeShape}

theorem shape?_of_le (h : t ≤ t') (hs : t.shape? ty = some shape) : t'.shape? ty = some shape :=
  h ty shape hs

theorem index_lt_size (h : t.shape? ty = some shape) : ty.index < t.size :=
  (Array.getElem?_eq_some_iff.1 h).1

/-- The intrinsic types are always there. -/
theorem eight_le_size (t : TypeTable) : 8 ≤ t.size :=
  index_lt_size (t.shape?_id .string)

theorem size_le_of_le (h : t ≤ t') : t.size ≤ t'.size := by
  by_contra hlt
  have hi : t'.shapes.size < t.shapes.size := Nat.lt_of_not_le hlt
  have hs : t.shape? ⟨t'.size⟩ = some t.shapes[t'.shapes.size] := Array.getElem?_eq_getElem hi
  exact absurd (index_lt_size (shape?_of_le h hs)) (Nat.lt_irrefl _)

/-- A shape that is asked for is there, or it gets the next handle. -/
theorem intern_cases (t : TypeTable) (shape : TypeShape) :
    (∃ ty, t.shape? ty = some shape ∧ intern shape t = (ty, t)) ∨
      ∃ h : shape ∉ t.shapes, intern shape t = (⟨t.size⟩, t.push shape h) := by
  have hshape := shape?_intern t shape
  unfold intern at hshape ⊢
  split at hshape
  · next n hn => exact .inl ⟨⟨n⟩, hshape, rfl⟩
  · next hn =>
    exact .inr ⟨fun hm => by simpa using Array.findIdx?_eq_none_iff.1 hn shape hm, rfl⟩

/-- A shape that is known is not added again. -/
theorem intern_of_shape? (h : t.shape? ty = some shape) : intern shape t = (ty, t) := by
  rcases intern_cases t shape with ⟨ty', h', he⟩ | ⟨hnew, -⟩
  · rw [he, shape?_injective h h']
  · exact absurd (Array.mem_of_getElem? h) hnew

/-- **Asking for a shape makes a table grow.** -/
theorem le_intern (t : TypeTable) (shape : TypeShape) : t ≤ (intern shape t).2 := by
  intro ty s hs
  rw [shape?_intern_of_lt (index_lt_size hs), hs]

/-- A handle with a shape was there, or it is that of the shape that was asked for. -/
theorem shape?_intern_cases {s : TypeShape} (h : (intern shape t).2.shape? ty = some s) :
    t.shape? ty = some s ∨ s = shape := by
  rcases intern_cases t shape with ⟨ty', -, he⟩ | ⟨hnew, he⟩
  · rw [he] at h
    exact .inl h
  · rw [he] at h
    simp only [shape?, push, Array.getElem?_push] at h
    split at h
    · exact .inr (Option.some.inj h).symm
    · exact .inl h

/-! ## Parts of types -/

/-- A type is a certain one, or is built from it. -/
inductive Mentions (t : TypeTable) (target : TypeId) : TypeId → Prop
  | here : Mentions t target target
  | part {ty part : TypeId} {shape : TypeShape} (h : t.shape? ty = some shape)
    (hp : part ∈ shape.parts) (hm : Mentions t target part) : Mentions t target ty

/-- A type is built from known handles only. -/
inductive Interned (t : TypeTable) : TypeId → Prop
  | intro {ty : TypeId} {shape : TypeShape} (h : t.shape? ty = some shape)
    (hp : ∀ part ∈ shape.parts, Interned t part) : Interned t ty

/-- A type is built from known handles only, in at most a number of levels. -/
def Within (t : TypeTable) : Nat → TypeId → Prop
  | 0, _ => False
  | n + 1, ty => ∃ shape, t.shape? ty = some shape ∧ ∀ part ∈ shape.parts, t.Within n part

theorem Within.succ {n : Nat} (h : t.Within n ty) : t.Within (n + 1) ty := by
  induction n generalizing ty with
  | zero => cases h
  | succ n ih =>
    obtain ⟨shape, hs, hp⟩ := h
    exact ⟨shape, hs, fun part hpart => ih (hp part hpart)⟩

theorem Within.of_le {m n : Nat} (h : t.Within m ty) (hn : m ≤ n) : t.Within n ty := by
  induction hn with
  | refl => exact h
  | step _ ih => exact ih.succ

theorem Within.mono {n : Nat} (h : t.Within n ty) (hle : t ≤ t') : t'.Within n ty := by
  induction n generalizing ty with
  | zero => cases h
  | succ n ih =>
    obtain ⟨shape, hs, hp⟩ := h
    exact ⟨shape, shape?_of_le hle hs, fun part hpart => ih (hp part hpart)⟩

theorem Within.index_lt {n : Nat} (h : t.Within n ty) : ty.index < t.size := by
  cases n with
  | zero => cases h
  | succ n =>
    obtain ⟨shape, hs, -⟩ := h
    exact index_lt_size hs

theorem Interned.mono (h : t.Interned ty) (hle : t ≤ t') : t'.Interned ty := by
  induction h with
  | intro hs _ ih => exact .intro (shape?_of_le hle hs) ih

/-- A table whose shapes are built from handles that were given out before holds interned types
only. -/
theorem interned_of_ordered (h : ∀ ty shape, t.shape? ty = some shape →
    ∀ part ∈ shape.parts, part.index < ty.index) (hlt : ty.index < t.size) : t.Interned ty := by
  induction hn : ty.index using Nat.strong_induction_on generalizing ty with
  | _ n ih =>
    have hs : t.shape? ty = some t.shapes[ty.index] := Array.getElem?_eq_getElem hlt
    refine .intro hs fun part hpart => ?_
    have hpart' := h ty _ hs part hpart
    exact ih part.index (hn ▸ hpart') (hpart'.trans hlt) rfl

theorem exists_within_all {tys : List TypeId} (h : ∀ ty ∈ tys, ∃ n, t.Within n ty) :
    ∃ n, ∀ ty ∈ tys, t.Within n ty := by
  induction tys with
  | nil => exact ⟨0, nofun⟩
  | cons ty tys ih =>
    obtain ⟨m, hm⟩ := h ty (by simp)
    obtain ⟨n, hn⟩ := ih fun ty hty => h ty (List.mem_cons_of_mem _ hty)
    refine ⟨max m n, List.forall_mem_cons.2 ⟨hm.of_le (Nat.le_max_left _ _), fun ty hty => ?_⟩⟩
    exact (hn ty hty).of_le (Nat.le_max_right _ _)

/-- An interned type has some number of levels. -/
theorem Interned.exists_within (h : t.Interned ty) : ∃ n, t.Within n ty := by
  induction h with
  | intro hs _ ih =>
    obtain ⟨n, hn⟩ := exists_within_all ih
    exact ⟨n + 1, _, hs, hn⟩

open Classical in
/-- The handles with at most a number of levels. -/
noncomputable def levelSet (t : TypeTable) (n : Nat) : Finset (Fin t.size) :=
  Finset.univ.filter fun i => t.Within n ⟨i⟩

theorem mem_levelSet {n : Nat} {i : Fin t.size} : i ∈ t.levelSet n ↔ t.Within n ⟨i⟩ := by
  simp [levelSet]

theorem levelSet_subset {m n : Nat} (h : m ≤ n) : t.levelSet m ⊆ t.levelSet n := by
  intro i hi
  rw [mem_levelSet] at hi ⊢
  exact hi.of_le h

/-- Where one more level adds no handle, further levels add none. -/
theorem levelSet_stable {n : Nat} (h : t.levelSet n = t.levelSet (n + 1)) :
    t.levelSet (n + 1) = t.levelSet (n + 2) := by
  refine Finset.Subset.antisymm (levelSet_subset (Nat.le_succ _)) ?_
  intro i hi
  rw [mem_levelSet] at hi ⊢
  obtain ⟨shape, hs, hp⟩ := hi
  refine ⟨shape, hs, fun part hpart => ?_⟩
  -- A part of the new level is of the level below, and so of one more below.
  have hmem : (⟨part.index, (hp part hpart).index_lt⟩ : Fin t.size) ∈ t.levelSet (n + 1) :=
    mem_levelSet.2 (hp part hpart)
  rw [← h] at hmem
  exact mem_levelSet.1 hmem

/-- **An interned type has no more levels than its table has handles.** With each level there is a
new handle, until there is none any more. -/
theorem Interned.within_size (h : t.Interned ty) : t.Within t.size ty := by
  obtain ⟨n, hn⟩ := h.exists_within
  by_cases hle : n ≤ t.size
  · exact hn.of_le hle
  · have hcard : (t.levelSet n).card = (t.levelSet t.size).card := by
      refine Nat.stabilises_of_monotone (f := fun n => (t.levelSet n).card) ?_ ?_ ?_ (by omega)
      · exact fun m n hmn => Finset.card_le_card (levelSet_subset hmn)
      · intro m
        have := Finset.card_le_univ (t.levelSet m)
        rwa [Fintype.card_fin] at this
      · intro m hm
        have heq := Finset.eq_of_subset_of_card_le (levelSet_subset (Nat.le_succ m))
          (Nat.le_of_eq hm.symm)
        exact congrArg Finset.card (levelSet_stable heq)
    have heq : t.levelSet t.size = t.levelSet n :=
      Finset.eq_of_subset_of_card_le (levelSet_subset (by omega)) (Nat.le_of_eq hcard)
    have hmem : (⟨ty.index, hn.index_lt⟩ : Fin t.size) ∈ t.levelSet n := mem_levelSet.2 hn
    rw [← heq] at hmem
    exact mem_levelSet.1 hmem

/-! ## Properties that pass along parts -/

/-- A property of types that passes from a type to its parts, and from the parts of a new shape to
its handle, and that stays true while such shapes are added. -/
structure Hereditary (good : TypeTable → TypeId → Prop) : Prop where
  object : ∀ t, good t .object
  part : ∀ {t ty shape part}, good t ty → t.shape? ty = some shape → part ∈ shape.parts →
    good t part
  intern : ∀ {t shape}, (∀ k, shape ≠ .intrinsic k) → (∀ part ∈ shape.parts, good t part) →
    good (TypeTable.intern shape t).2 (TypeTable.intern shape t).1
  keep : ∀ {t shape ty}, (∀ part ∈ shape.parts, good t part) → good t ty →
    good (TypeTable.intern shape t).2 ty

/-- The type arguments of a type are parts of it. -/
theorem Hereditary.args {good : TypeTable → TypeId → Prop} (hg : Hereditary good) {d : DefId}
    {args : List TypeId} (hty : good t ty) (h : t.defAndArgs? ty = some (d, args)) :
    ∀ arg ∈ args, good t arg := by
  intro arg harg
  unfold defAndArgs? at h
  split at h
  · cases h
    cases harg
  · next hs =>
    cases h
    exact hg.part hty hs harg
  · cases h

/-- A type without its `null` is a part of it, or it is the type itself. -/
theorem Hereditary.strip {good : TypeTable → TypeId → Prop} (hg : Hereditary good)
    (hty : good t ty) : good t (t.strip ty) := by
  unfold TypeTable.strip nullableInner?
  split
  · next inner hs => exact hg.part hty hs (by simp [TypeShape.parts])
  · exact hty

theorem Interned.shape? (h : t.Interned ty) : ∃ shape, t.shape? ty = some shape ∧
    ∀ part ∈ shape.parts, t.Interned part := by
  cases h with
  | intro hs hp => exact ⟨_, hs, hp⟩

/-- That nothing is asked of types passes along parts. -/
theorem hereditary_true : Hereditary fun _ _ => True where
  object _ := trivial
  part _ _ _ := trivial
  intern _ _ := trivial
  keep _ _ := trivial

/-- **To be interned passes along parts.** -/
theorem hereditary_interned : Hereditary Interned where
  object t := .intro (shape?_id t .object) nofun
  part := by
    intro t ty shape part h hs hp
    obtain ⟨shape', hs', hp'⟩ := h.shape?
    obtain rfl := Option.some.inj (hs.symm.trans hs')
    exact hp' part hp
  intern := by
    intro t shape _ hp
    exact .intro (shape?_intern t shape) fun part hpart => (hp part hpart).mono (le_intern t shape)
  keep := by
    intro t shape ty _ h
    exact h.mono (le_intern t shape)

theorem not_mentions_id {k l : Intrinsic} (h : k ≠ l) : ¬ t.Mentions l.id k.id := by
  intro hm
  generalize hty : k.id = ty at hm
  cases hm with
  | here => exact h (Intrinsic.id_injective hty)
  | part hs hp _ =>
    subst hty
    rw [shape?_id] at hs
    cases hs
    cases hp

/-- **Not to mention an intrinsic type passes along parts.** -/
theorem hereditary_not_mentions {k : Intrinsic} (hk : k ≠ .object) :
    Hereditary fun t ty => ¬ t.Mentions k.id ty := by
  have keep : ∀ {t : TypeTable} {shape : TypeShape} {ty : TypeId},
      (∀ part ∈ shape.parts, ¬ t.Mentions k.id part) →
      (TypeTable.intern shape t).2.Mentions k.id ty → t.Mentions k.id ty := by
    intro t shape ty hp h
    induction h with
    | here => exact .here
    | part hs hpart _ ih =>
      rcases shape?_intern_cases hs with hs' | rfl
      · exact .part hs' hpart ih
      · exact absurd ih (hp _ hpart)
  have parts : ∀ {t : TypeTable} {ty : TypeId} {shape : TypeShape},
      t.shape? ty = some shape → ty ≠ k.id → t.Mentions k.id ty →
      ∃ part ∈ shape.parts, t.Mentions k.id part := by
    intro t ty shape hs hne h
    cases h with
    | here => exact absurd rfl hne
    | part hs' hp hm =>
      obtain rfl := Option.some.inj (hs.symm.trans hs')
      exact ⟨_, hp, hm⟩
  refine ⟨?_, ?_, ?_, ?_⟩
  · exact fun t => not_mentions_id (Ne.symm hk)
  · intro t ty shape part h hs hp hm
    exact h (.part hs hp hm)
  · intro t shape hne hp h
    have hshape := shape?_intern t shape
    have hid : (TypeTable.intern shape t).1 ≠ k.id := by
      intro he
      rw [he, shape?_id] at hshape
      exact hne k (Option.some.inj hshape).symm
    obtain ⟨part, hpart, hm⟩ := parts hshape hid h
    exact hp part hpart (keep hp hm)
  · intro t shape ty hp h hm
    exact h (keep hp hm)

theorem Hereditary.and {good good' : TypeTable → TypeId → Prop} (h : Hereditary good)
    (h' : Hereditary good') : Hereditary fun t ty => good t ty ∧ good' t ty where
  object t := ⟨h.object t, h'.object t⟩
  part hg hs hp := ⟨h.part hg.1 hs hp, h'.part hg.2 hs hp⟩
  intern hne hp := ⟨h.intern hne fun p hpart => (hp p hpart).1,
    h'.intern hne fun p hpart => (hp p hpart).2⟩
  keep hp hg := ⟨h.keep (fun p hpart => (hp p hpart).1) hg.1,
    h'.keep (fun p hpart => (hp p hpart).2) hg.2⟩

end TypeTable

end UpdateExpr
