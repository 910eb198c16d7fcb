import UpdateExpr.Proofs.Ty.Normal

/-!
# Identity without `null`

Where `null` does not matter, two types in normal form are the same exactly when their trees are
equal once `null` is taken away everywhere, at the top and within type arguments. The comparison
takes `null` away once at each level, which is enough, since nothing in normal form has it twice.

## Main definitions

* `Ty.withoutNull`: a tree with `null` taken away everywhere
* `Strictness.Same`: two trees are the same

## Main results

* `TypeTable.Normal.areIdentical_iff`: identity of two types in normal form
* `areIdentical_iff_withoutNull`: identity in a table that was made by asking for types
-/

namespace UpdateExpr

mutual

/-- A tree with `null` taken away, at the top and within type arguments. -/
def Ty.withoutNull : Ty → Ty
  | .unknown ty => .unknown ty
  | .intrinsic k => .intrinsic k
  | .plain d => .plain d
  | .applied d args => .applied d (Ty.withoutNullAll args)
  | .parameter owner index => .parameter owner index
  | .nullable inner => inner.withoutNull

/-- Some trees with `null` taken away. -/
def Ty.withoutNullAll : List Ty → List Ty
  | [] => []
  | ty :: rest => ty.withoutNull :: Ty.withoutNullAll rest

end

namespace Ty

theorem withoutNullAll_eq_map (args : List Ty) : withoutNullAll args = args.map withoutNull := by
  induction args with
  | nil => rfl
  | cons arg args ih => rw [withoutNullAll, ih, List.map_cons]

@[simp] theorem withoutNull_applied (d : DefId) (args : List Ty) :
    (Ty.applied d args).withoutNull = .applied d (args.map withoutNull) := by
  rw [withoutNull, withoutNullAll_eq_map]

@[simp] theorem withoutNull_nullable (inner : Ty) :
    (Ty.nullable inner).withoutNull = inner.withoutNull := by
  rw [withoutNull]

@[simp] theorem withoutNull_addNull (ty : Ty) : ty.addNull.withoutNull = ty.withoutNull := by
  unfold addNull
  split
  · exact withoutNull_nullable ty
  · rfl

end Ty

/-- Two trees are the same: they are equal, or equal without `null` where it does not matter. -/
def Strictness.Same : Strictness → Ty → Ty → Prop
  | exact, x, y => x = y
  | ignoreNull, x, y => x.withoutNull = y.withoutNull

namespace TypeTable

variable {t : TypeTable} {a b : TypeId} {n m : Nat} {sa sb : TypeShape}

/-- The tree of a type with `null` taken away. -/
def bareTree (t : TypeTable) (ty : TypeId) : Ty :=
  (t.expand ty).withoutNull

/-- A type in normal form that has no `null` has it in its parts only. -/
theorem bareTree_eq_tree (h : t.Interned a) (hs : t.shape? a = some sa)
    (hn : t.nullableInner? a = none) : t.bareTree a = sa.tree t.bareTree := by
  unfold bareTree
  rw [h.expand_eq hs]
  cases sa with
  | applied d args =>
    show (Ty.applied d (args.map t.expand)).withoutNull = .applied d (args.map t.bareTree)
    rw [Ty.withoutNull_applied, List.map_map]
    rfl
  | nullable inner =>
    rw [nullableInner?, hs] at hn
    cases hn
  | intrinsic k => rfl
  | plain d => rfl
  | parameter owner index => rfl

/-- Without its `null`, a type in normal form is in normal form, has no `null` and keeps its tree up
to `null`. -/
theorem Normal.strip (h : t.Normal a) :
    t.Normal (t.strip a) ∧ t.nullableInner? (t.strip a) = none ∧
      t.bareTree (t.strip a) = t.bareTree a := by
  cases hi : t.nullableInner? a with
  | none =>
    have hstrip : t.strip a = a := by rw [TypeTable.strip, hi, Option.getD_none]
    rw [hstrip]
    exact ⟨h, hi, rfl⟩
  | some inner =>
    have hstrip : t.strip a = inner := by rw [TypeTable.strip, hi, Option.getD_some]
    have hs : t.shape? a = some (.nullable inner) := by
      unfold nullableInner? at hi
      split at hi
      · next hs =>
        cases hi
        exact hs
      · cases hi
    have hinner : t.Normal inner := h.parts hs inner (by simp [TypeShape.parts])
    have hexpand : t.expand a = .nullable (t.expand inner) := h.interned.expand_eq hs
    rw [hstrip]
    refine ⟨hinner, ?_, ?_⟩
    · have htree : (t.expand a).Normal := h
      rw [hexpand] at htree
      cases htree with
      | nullable _ htakes =>
        have hno := takesNull_expand hinner
        rw [htakes, Bool.not_true, Bool.or_eq_false_iff] at hno
        exact Option.isSome_eq_false_iff.1 hno.2 |> Option.isNone_iff_eq_none.1
    · rw [bareTree, bareTree, hexpand, Ty.withoutNull_nullable]

theorem alike_self {r : TypeId → TypeId → Prop} (hr : ∀ x, r x x) (shape : TypeShape) :
    shape.Alike r shape := by
  cases shape with
  | intrinsic k => exact .intrinsic k
  | plain d => exact .plain d
  | applied d args => exact .applied d (List.forall₂_same.2 fun x _ => hr x)
  | parameter owner index => exact .parameter owner index
  | nullable inner => exact .nullable (hr inner)

/-- The comparison of type arguments, one by one. -/
theorem all_zip_iff {p : TypeId → TypeId → Bool} {xs ys : List TypeId} :
    (xs.length == ys.length && (xs.zip ys).all fun (x, y) => x == y || p x y) = true ↔
      List.Forall₂ (fun x y => x = y ∨ p x y = true) xs ys := by
  rw [List.forall₂_iff_zip, Bool.and_eq_true, beq_iff_eq, List.all_eq_true, Prod.forall]
  simp only [Bool.or_eq_true, beq_iff_eq]

/-- One level of the comparison: without their `null`, the two types have shapes that are alike,
with parts that are equal or compare as the same one level below. -/
theorem sameButNull_succ_iff (ha : t.shape? (t.strip a) = some sa)
    (hb : t.shape? (t.strip b) = some sb) (hna : t.nullableInner? (t.strip a) = none) :
    t.sameButNull (n + 1) a b = true ↔
      sa.Alike (fun x y => x = y ∨ t.sameButNull n x y = true) sb := by
  rw [sameButNull]
  dsimp only
  rw [ha, hb, Bool.or_eq_true, beq_iff_eq]
  constructor
  · rintro (heq | happlied)
    · obtain rfl := Option.some.inj (ha.symm.trans ((congrArg t.shape? heq).trans hb))
      exact alike_self (fun x => .inl rfl) sa
    · split at happlied
      · next d xs e ys hsa hsb =>
        cases hsa
        cases hsb
        rw [Bool.and_assoc, Bool.and_eq_true, beq_iff_eq] at happlied
        obtain ⟨rfl, hargs⟩ := happlied
        exact .applied d (all_zip_iff.1 hargs)
      · cases happlied
  · intro h
    cases h with
    | intrinsic k => exact .inl (shape?_injective ha hb)
    | plain d => exact .inl (shape?_injective ha hb)
    | parameter owner index => exact .inl (shape?_injective ha hb)
    | applied d hargs =>
      right
      dsimp only
      rw [Bool.and_assoc, Bool.and_eq_true, beq_iff_eq]
      exact ⟨rfl, all_zip_iff.2 hargs⟩
    | nullable _ =>
      rw [nullableInner?, ha] at hna
      cases hna

/-- **Limits that a type does not reach tell whether two trees are equal up to `null`.** -/
theorem sameButNull_iff (hw : t.Within n a) (ha : t.Normal a) (hb : t.Normal b) (hm : n ≤ m) :
    t.sameButNull m a b = true ↔ t.bareTree a = t.bareTree b := by
  induction n generalizing m a b with
  | zero => exact hw.elim
  | succ n ih =>
    obtain ⟨k, rfl⟩ : ∃ k, m = k + 1 := ⟨m - 1, by omega⟩
    obtain ⟨ha', hna, htreea⟩ := ha.strip
    obtain ⟨hb', hnb, htreeb⟩ := hb.strip
    obtain ⟨sa, hsa, hparts⟩ := hw.strip
    obtain ⟨sb, hsb, -⟩ := hb'.interned.shape?
    rw [sameButNull_succ_iff hsa hsb hna, ← htreea, ← htreeb,
      bareTree_eq_tree ha'.interned hsa hna, bareTree_eq_tree hb'.interned hsb hnb,
      TypeShape.tree_eq_tree_iff]
    have hpart : ∀ x ∈ sa.parts, ∀ y ∈ sb.parts,
        (x = y ∨ t.sameButNull k x y = true ↔ t.bareTree x = t.bareTree y) := by
      intro x hx y hy
      rw [ih (hparts x hx) (ha'.parts hsa x hx) (hb'.parts hsb y hy) (by omega)]
      exact or_iff_right_of_imp (congrArg t.bareTree)
    exact ⟨fun h => h.imp_mem fun x hx y hy => (hpart x hx y hy).1,
      fun h => h.imp_mem fun x hx y hy => (hpart x hx y hy).2⟩

/-- **Identity of two types in normal form.** Where `null` does not matter, they are the same
exactly when their trees are equal with `null` taken away. -/
theorem Normal.areIdentical_iff (ha : t.Normal a) (hb : t.Normal b) :
    t.areIdentical .ignoreNull a b = true ↔ t.bareTree a = t.bareTree b := by
  have hsquare : t.size ≤ (t.size + 1) * (t.size + 1) := by
    rw [Nat.add_mul, Nat.mul_add]
    omega
  have hsame := sameButNull_iff ha.interned.within_size ha hb hsquare
  unfold areIdentical
  dsimp only
  rw [Bool.or_eq_true, beq_iff_eq, hsame]
  exact or_iff_right_of_imp (congrArg t.bareTree)

/-- **Identity of two types in normal form**, in either sense, is told by their trees. -/
theorem Normal.areIdentical_iff_same (ha : t.Normal a) (hb : t.Normal b) (strictness : Strictness) :
    t.areIdentical strictness a b = true ↔ strictness.Same (t.expand a) (t.expand b) := by
  cases strictness with
  | exact =>
    rw [areIdentical_exact, beq_iff_eq]
    exact ⟨congrArg t.expand, ha.interned.expand_injective hb.interned⟩
  | ignoreNull => exact ha.areIdentical_iff hb

/-- What is the same in the strict sense is the same where `null` does not matter. -/
theorem areIdentical_ignoreNull_of_exact (h : t.areIdentical .exact a b = true) :
    t.areIdentical .ignoreNull a b = true := by
  rw [areIdentical_exact, beq_iff_eq] at h
  rw [h]
  exact t.areIdentical_self .ignoreNull b

end TypeTable

/-- **Where `null` does not matter, identity is equality of trees without `null`**, for all types of
a table that was made by asking for types. So it is an equivalence between these types, and it
follows from identity in the strict sense. -/
theorem areIdentical_iff_withoutNull {t : TypeTable} (ht : t.Made) :
    (∀ a b : TypeId, a.index < t.size → b.index < t.size →
      (t.areIdentical .ignoreNull a b = true ↔
        (t.expand a).withoutNull = (t.expand b).withoutNull)) ∧
    Equivalence (fun a b : {ty : TypeId // ty.index < t.size} =>
      t.areIdentical .ignoreNull a b = true) ∧
    ∀ a b : TypeId, t.areIdentical .exact a b = true → t.areIdentical .ignoreNull a b = true := by
  have hiff : ∀ a b : TypeId, a.index < t.size → b.index < t.size →
      (t.areIdentical .ignoreNull a b = true ↔ t.bareTree a = t.bareTree b) :=
    fun a b ha hb => (ht.normal a ha).areIdentical_iff (ht.normal b hb)
  refine ⟨hiff, ⟨fun a => ?_, fun {a b} h => ?_, fun {a b c} hab hbc => ?_⟩, ?_⟩
  · exact t.areIdentical_self .ignoreNull a
  · rw [TypeTable.areIdentical_comm]
    exact h
  · rw [hiff _ _ a.2 b.2] at hab
    rw [hiff _ _ b.2 c.2] at hbc
    rw [hiff _ _ a.2 c.2]
    exact hab.trans hbc
  · exact fun a b => TypeTable.areIdentical_ignoreNull_of_exact

/-- The types `A<int?, B<string?>?>` and `A<int, B<string>>?`, with all their parts. -/
def nestTypes : TypeTable :=
  let t := (TypeTable.nullable Intrinsic.int.id {}).2
  let t := (TypeTable.nullable Intrinsic.string.id t).2
  let t := (TypeTable.applied ⟨1⟩ [⟨9⟩] t).2
  let t := (TypeTable.nullable ⟨10⟩ t).2
  let t := (TypeTable.applied ⟨0⟩ [⟨8⟩, ⟨11⟩] t).2
  let t := (TypeTable.applied ⟨1⟩ [Intrinsic.string.id] t).2
  let t := (TypeTable.applied ⟨0⟩ [Intrinsic.int.id, ⟨13⟩] t).2
  (TypeTable.nullable ⟨14⟩ t).2

theorem made_nestTypes : nestTypes.Made := by
  refine .nullable (.applied (.applied (.applied (.nullable (.applied (.nullable (.nullable
    .empty ?_) ?_) _ ?_) ?_) _ ?_) _ ?_) _ ?_) ?_
  all_goals decide +kernel

/-- Both types are the same but for `null`, which stands at three places and at two levels. -/
theorem areIdentical_iff_withoutNull_of_nest :
    (nestTypes.Made ∧ 12 < nestTypes.size ∧ 15 < nestTypes.size) ∧
    nestTypes.areIdentical .exact ⟨12⟩ ⟨15⟩ = false ∧
    nestTypes.areIdentical .ignoreNull ⟨12⟩ ⟨15⟩ = true ∧
    (nestTypes.expand ⟨12⟩).withoutNull = (nestTypes.expand ⟨15⟩).withoutNull := by
  have ha : 12 < nestTypes.size := by decide +kernel
  have hb : 15 < nestTypes.size := by decide +kernel
  have hsame : nestTypes.areIdentical .ignoreNull ⟨12⟩ ⟨15⟩ = true := by decide +kernel
  exact ⟨⟨made_nestTypes, ha, hb⟩, by decide +kernel, hsame,
    ((areIdentical_iff_withoutNull made_nestTypes).1 ⟨12⟩ ⟨15⟩ ha hb).1 hsame⟩

end UpdateExpr
