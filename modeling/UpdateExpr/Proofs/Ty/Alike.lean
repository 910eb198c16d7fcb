import Mathlib.Logic.Relator
import Mathlib.Tactic.IntervalCases
import UpdateExpr.Proofs.Related
import UpdateExpr.Proofs.Ty.Tree

/-!
# Types that mean the same in two tables

Two tables that have grown in different ways give different handles to what one of them got later
than the other. Handles of two tables are alike when they are interned and have one tree. What is
asked of a type has like answers for like handles, whichever table is asked.

## Main definitions

* `Tables`: two tables, which grow side by side
* `Alike`: handles of two tables mean the same

## Main results

* `Alike.mono`: what is alike stays so while both tables grow
* `Alike.shapes`, `alike_of_shapes`: handles are alike where their shapes are
* `Alike.eq_iff`: like handles are equal on the one side where they are on the other
* `Alike.areIdentical_eq`: identity does not depend on the table
-/

namespace UpdateExpr

/-- Two tables of types. -/
abbrev Tables :=
  TypeTable × TypeTable

/-- Handles of two tables mean the same: they are interned and have one tree. -/
structure Alike (w : Tables) (a a' : TypeId) : Prop where
  left : w.1.Interned a
  right : w.2.Interned a'
  tree : w.1.expand a = w.2.expand a'

section Alike

variable {w w' : Tables} {t : TypeTable} {a a' b b' : TypeId} {n : Nat} {k : Intrinsic}

/-- **What is alike stays so while both tables grow.** -/
theorem Alike.mono (h : Alike w a a') (hle : w ≤ w') : Alike w' a a' where
  left := h.left.mono hle.1
  right := h.right.mono hle.2
  tree := by rw [h.left.expand_eq_of_le hle.1, h.right.expand_eq_of_le hle.2, h.tree]

/-- A type that both tables have from a common past is like itself. -/
theorem alike_of_interned (h : t.Interned a) (hle : (t, t) ≤ w) : Alike w a a where
  left := h.mono hle.1
  right := h.mono hle.2
  tree := by rw [h.expand_eq_of_le hle.1, h.expand_eq_of_le hle.2]

/-- **Like handles have like shapes.** -/
theorem Alike.shapes (h : Alike w a a') : ∃ shape shape', w.1.shape? a = some shape ∧
    w.2.shape? a' = some shape' ∧ shape.Alike (Alike w) shape' := by
  obtain ⟨shape, hs, hp⟩ := h.left.shape?
  obtain ⟨shape', hs', hp'⟩ := h.right.shape?
  refine ⟨shape, shape', hs, hs', ?_⟩
  have htree := h.tree
  rw [h.left.expand_eq hs, h.right.expand_eq hs', TypeShape.tree_eq_tree_iff] at htree
  exact htree.imp_mem fun b hb b' hb' heq => ⟨hp b hb, hp' b' hb', heq⟩

theorem Alike.symm (h : Alike w a a') : Alike w.swap a' a :=
  ⟨h.right, h.left, h.tree.symm⟩

/-- **Handles with like shapes are alike.** -/
theorem alike_of_shapes {shape shape' : TypeShape} (hs : w.1.shape? a = some shape)
    (hs' : w.2.shape? a' = some shape') (h : shape.Alike (Alike w) shape') : Alike w a a' := by
  have hl : w.1.Interned a := by
    refine .intro hs fun part hpart => ?_
    obtain ⟨part', -, hr⟩ := exists_of_forall₂ h.parts part hpart
    exact hr.left
  have hr : w.2.Interned a' := by
    refine .intro hs' fun part' hpart' => ?_
    obtain ⟨part, -, hr⟩ := exists_of_forall₂ h.parts.flip part' hpart'
    exact hr.right
  refine ⟨hl, hr, ?_⟩
  rw [hl.expand_eq hs, hr.expand_eq hs', TypeShape.tree_eq_tree_iff]
  exact h.imp fun _ _ hp => hp.tree

/-- **Like handles are equal on the one side where they are on the other.** -/
theorem Alike.eq_iff (ha : Alike w a a') (hb : Alike w b b') : a = b ↔ a' = b' := by
  constructor
  · rintro rfl
    exact ha.right.expand_injective hb.right (ha.tree.symm.trans hb.tree)
  · rintro rfl
    exact ha.left.expand_injective hb.left (ha.tree.trans hb.tree.symm)

theorem biUnique_alike (w : Tables) : Relator.BiUnique (Alike w) :=
  ⟨fun _ _ _ h h' => (h.eq_iff h').2 rfl, fun _ _ _ h h' => (h.eq_iff h').1 rfl⟩

theorem Alike.beq_eq (ha : Alike w a a') (hb : Alike w b b') : (a == b) = (a' == b') := by
  rw [Bool.eq_iff_iff, beq_iff_eq, beq_iff_eq, ha.eq_iff hb]

/-! ## Intrinsic types -/

theorem alike_id (w : Tables) (k : Intrinsic) : Alike w k.id k.id :=
  alike_of_shapes (TypeTable.shape?_id _ k) (TypeTable.shape?_id _ k) (.intrinsic k)

theorem Alike.isError_eq (h : Alike w a a') : a.isError = a'.isError :=
  h.beq_eq (alike_id w .error)

theorem isIntrinsic_iff : a.isIntrinsic = true ↔ ∃ k : Intrinsic, a = k.id := by
  constructor
  · intro h
    obtain ⟨index⟩ := a
    have hlt : index < 8 := of_decide_eq_true h
    interval_cases index
    exacts [⟨.error, rfl⟩, ⟨.void, rfl⟩, ⟨.object, rfl⟩, ⟨.int, rfl⟩, ⟨.long, rfl⟩, ⟨.double, rfl⟩,
      ⟨.bool, rfl⟩, ⟨.string, rfl⟩]
  · rintro ⟨k, rfl⟩
    exact TypeId.isIntrinsic_id k

theorem Alike.isIntrinsic_eq (h : Alike w a a') : a.isIntrinsic = a'.isIntrinsic := by
  rw [Bool.eq_iff_iff, isIntrinsic_iff, isIntrinsic_iff]
  exact exists_congr fun k => h.eq_iff (alike_id w k)

/-! ## Shapes -/

theorem Alike.intrinsic?_eq (h : Alike w a a') : w.1.intrinsic? a = w.2.intrinsic? a' := by
  obtain ⟨shape, shape', hs, hs', hsh⟩ := h.shapes
  rw [TypeTable.intrinsic?, TypeTable.intrinsic?, hs, hs']
  cases hsh <;> rfl

/-- Like types both have `null`, added to like types, or neither has it. -/
theorem Alike.nullableInner?_cases {t t' : TypeTable} (h : Alike (t, t') a a') :
    t.nullableInner? a = none ∧ t'.nullableInner? a' = none ∨
      ∃ inner inner', t.nullableInner? a = some inner ∧ t'.nullableInner? a' = some inner' ∧
        Alike (t, t') inner inner' := by
  obtain ⟨shape, shape', hs, hs', hsh⟩ := h.shapes
  rw [TypeTable.nullableInner?, TypeTable.nullableInner?, hs, hs']
  cases hsh with
  | nullable h => exact .inr ⟨_, _, rfl, rfl, h⟩
  | _ => exact .inl ⟨rfl, rfl⟩

theorem Alike.isSome_nullableInner?_eq (h : Alike w a a') :
    (w.1.nullableInner? a).isSome = (w.2.nullableInner? a').isSome := by
  rcases h.nullableInner?_cases with ⟨hi, hi'⟩ | ⟨inner, inner', hi, hi', -⟩
  · rw [hi, hi']
  · rw [hi, hi']
    rfl

theorem Alike.strip (h : Alike w a a') : Alike w (w.1.strip a) (w.2.strip a') := by
  rw [TypeTable.strip, TypeTable.strip]
  rcases h.nullableInner?_cases with ⟨hi, hi'⟩ | ⟨inner, inner', hi, hi', hinner⟩
  · rw [hi, hi']
    exact h
  · rw [hi, hi']
    exact hinner

/-- Like types are both applications of one definition to like arguments, or neither is. -/
theorem Alike.defAndArgs?_cases {t t' : TypeTable} (h : Alike (t, t') a a') :
    t.defAndArgs? a = none ∧ t'.defAndArgs? a' = none ∨
      ∃ d args args', t.defAndArgs? a = some (d, args) ∧ t'.defAndArgs? a' = some (d, args') ∧
        List.Forall₂ (Alike (t, t')) args args' := by
  obtain ⟨shape, shape', hs, hs', hsh⟩ := h.shapes
  rw [TypeTable.defAndArgs?, TypeTable.defAndArgs?, hs, hs']
  cases hsh with
  | plain d => exact .inr ⟨d, [], [], rfl, rfl, .nil⟩
  | applied d h => exact .inr ⟨d, _, _, rfl, rfl, h⟩
  | _ => exact .inl ⟨rfl, rfl⟩

theorem Alike.isSome_defAndArgs?_eq (h : Alike w a a') :
    (w.1.defAndArgs? a).isSome = (w.2.defAndArgs? a').isSome := by
  rcases h.defAndArgs?_cases with ⟨hd, hd'⟩ | ⟨d, args, args', hd, hd', -⟩
  · rw [hd, hd']
  · rw [hd, hd']
    rfl

theorem Alike.isReference_eq (h : Alike w a a') : w.1.isReference a = w.2.isReference a' := by
  have hstrip := h.strip
  have hobject : (w.1.strip a == .object) = (w.2.strip a' == .object) :=
    hstrip.beq_eq (alike_id w .object)
  have hstring : (w.1.strip a == .string) = (w.2.strip a' == .string) :=
    hstrip.beq_eq (alike_id w .string)
  rw [TypeTable.isReference, TypeTable.isReference, hobject, hstring,
    hstrip.isSome_defAndArgs?_eq]

/-! ## Levels -/

theorem Alike.within (h : Alike w a a') (hw : w.2.Within n a') : w.1.Within n a := by
  induction n generalizing a a' with
  | zero => exact hw.elim
  | succ n ih =>
    obtain ⟨shape, shape', hs, hs', hsh⟩ := h.shapes
    obtain ⟨s, hs'', hp⟩ := hw
    obtain rfl := Option.some.inj (hs'.symm.trans hs'')
    refine ⟨shape, hs, fun part hpart => ?_⟩
    obtain ⟨part', hpart', hr⟩ := exists_of_forall₂ hsh.parts part hpart
    exact ih hr (hp part' hpart')

/-- Like types end within the size of either table. -/
theorem Alike.exists_within (h : Alike w a a') :
    ∃ n, w.1.Within n a ∧ w.2.Within n a' ∧ n ≤ w.1.size ∧ n ≤ w.2.size := by
  rcases Nat.le_total w.1.size w.2.size with hle | hle
  · have hw := h.left.within_size
    exact ⟨w.1.size, hw, h.symm.within hw, le_refl _, hle⟩
  · have hw := h.right.within_size
    exact ⟨w.2.size, h.within hw, hw, hle, le_refl _⟩

/-! ## Identity -/

/-- **Limits that two types do not reach give the same in both tables.** -/
theorem Alike.sameButNull_eq {m m' : Nat} (ha : Alike w a a') (hb : Alike w b b')
    (hn : w.1.Within n a) (hm : n ≤ m) (hm' : n ≤ m') :
    w.1.sameButNull m a b = w.2.sameButNull m' a' b' := by
  induction n generalizing a a' b b' m m' with
  | zero => exact hn.elim
  | succ n ih =>
    obtain ⟨k, rfl⟩ : ∃ k, m = k + 1 := ⟨m - 1, by omega⟩
    obtain ⟨k', rfl⟩ : ∃ k', m' = k' + 1 := ⟨m' - 1, by omega⟩
    have ha' := ha.strip
    have hb' := hb.strip
    obtain ⟨sa, sa', hsa, hsa', hra⟩ := ha'.shapes
    obtain ⟨sb, sb', hsb, hsb', hrb⟩ := hb'.shapes
    unfold TypeTable.sameButNull
    dsimp only
    rw [ha'.beq_eq hb', hsa, hsa', hsb, hsb']
    congr 1
    cases hra with
    | applied d hxs =>
      cases hrb with
      | applied e hys =>
        obtain ⟨shape, hs, hw⟩ := hn.strip
        obtain rfl := Option.some.inj (hsa.symm.trans hs)
        dsimp only
        rw [hxs.length_eq, hys.length_eq]
        congr 1
        refine all_zip_eq hxs hys fun x x' y y' hx hxx' hyy' => ?_
        have hsame : w.1.sameButNull k x y = w.2.sameButNull k' x' y' :=
          ih hxx' hyy' (hw x hx) (by omega) (by omega)
        dsimp only
        rw [hxx'.beq_eq hyy', hsame]
      | _ => rfl
    | _ => rfl

/-- **Whether two types are the same does not depend on the table.** -/
theorem Alike.areIdentical_eq (ha : Alike w a a') (hb : Alike w b b') (strictness : Strictness) :
    w.1.areIdentical strictness a b = w.2.areIdentical strictness a' b' := by
  unfold TypeTable.areIdentical
  rw [ha.beq_eq hb]
  cases strictness with
  | exact => rfl
  | ignoreNull =>
    obtain ⟨n, hw, -, hn, hn'⟩ := ha.exists_within
    have hsquare : ∀ n, n ≤ (n + 1) * (n + 1) := fun n => by
      rw [Nat.add_mul, Nat.mul_add]
      omega
    dsimp only
    rw [ha.sameButNull_eq hb hw (hn.trans (hsquare _)) (hn'.trans (hsquare _))]

end Alike

end UpdateExpr
