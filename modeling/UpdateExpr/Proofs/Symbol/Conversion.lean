import UpdateExpr.Proofs.Symbol.Lookup
import UpdateExpr.Proofs.Ty.Identity
import UpdateExpr.Symbol.Conversion

/-!
# Conversions are steady

The way from one type to another is found from their bases and interfaces, and by taking `null` away
from both. The number of times that this is done has a limit from the size of the table, which types
that are interned do not reach.

## Main definitions

* `TypeTable.Peels`: taking `null` away comes to an end in a number of steps

## Main results

* `steady_derivesFrom`, `steady_implements`: the relations that a conversion follows
* `steady_classify`: the conversion from one type to another
-/

namespace UpdateExpr

/-- A type has no `null` any more when it has been taken away a number of times. -/
def TypeTable.Peels (t : TypeTable) : Nat → TypeId → Prop
  | 0, ty => t.nullableInner? ty = none
  | n + 1, ty => ∀ inner ∈ t.nullableInner? ty, t.Peels n inner

section Conversion

variable {good : TypeTable → TypeId → Prop} {s : SymbolTable} {q : QueryState}
  {t t' : TypeTable} {ty source target : TypeId}

/-! ## Relations -/

theorem steady_derivesFrom (hg : TypeTable.Hereditary good) (hs : s.AllGood good q.types)
    (hty : good q.types ty) (htarget : good q.types target) (strictness : Strictness) :
    Steady good (s.derivesFrom strictness ty target) (s.derivesFrom strictness ty target) q
      fun _ _ => True := by
  refine Steady.ofTypes fun t ht => ?_
  rw [ht.strip_eq hty]
  refine (steady_baseChain hg hs (hg.strip hty)).bind fun chain q₁ hgrow hchain _ => ?_
  refine Steady.ofTypes fun t₁ ht₁ => ?_
  have hsame : chain.any (t₁.areIdentical strictness · target) =
      chain.any (q₁.types.areIdentical strictness · target) :=
    any_congr_mem fun base hb => ht₁.areIdentical_eq (hchain base hb) (hgrow.keep htarget) _
  rw [hsame]
  exact .pure trivial

theorem steady_implements (hg : TypeTable.Hereditary good) (hs : s.AllGood good q.types)
    (hty : good q.types ty) (htarget : good q.types target) :
    Steady good (s.implements ty target) (s.implements ty target) q fun _ _ => True := by
  refine Steady.ofTypes fun t ht => ?_
  rw [ht.strip_eq hty]
  refine (steady_baseChain hg hs (hg.strip hty)).bind fun chain q₁ hgrow₁ hchain _ => ?_
  refine Steady.anyM fun base hb q₂ hgrow₂ => ?_
  have hgrow := hgrow₁.trans hgrow₂
  refine (steady_interfaceClosure hg (hs.grow hgrow) (hgrow₂.keep (hchain base hb))).bind ?_
  intro closure q₃ hgrow₃ hclosure _
  refine Steady.ofTypes fun t₃ ht₃ => ?_
  have hsame : closure.any (t₃.areIdentical .ignoreNull · target) =
      closure.any (q₃.types.areIdentical .ignoreNull · target) :=
    any_congr_mem fun i hi =>
      ht₃.areIdentical_eq (hclosure i hi) ((hgrow.trans hgrow₃).keep htarget) _
  rw [hsame]
  exact .pure trivial

theorem steady_classifyReferences (hg : TypeTable.Hereditary good) (hs : s.AllGood good q.types)
    (hsource : good q.types source) (htarget : good q.types target) :
    Steady good (s.classifyReferences source target) (s.classifyReferences source target) q
      fun _ _ => True := by
  refine Steady.ofTypes fun t ht => ?_
  have ha := hg.strip hsource
  have hb := hg.strip htarget
  rw [ht.strip_eq hsource, ht.strip_eq htarget]
  dsimp only
  rw [ht.areIdentical_eq ha hb]
  split
  · exact .pure trivial
  refine Steady.bind (Steady.orM (.pure trivial) fun q₁ hgrow₁ =>
    Steady.orM (steady_derivesFrom hg (hs.grow hgrow₁) (hgrow₁.keep ha) (hgrow₁.keep hb) _)
      fun q₂ hgrow₂ => ?_) ?_
  · have hgrow := hgrow₁.trans hgrow₂
    exact steady_implements hg (hs.grow hgrow) (hgrow.keep ha) (hgrow.keep hb)
  intro up q₁ hgrow₁ _ _
  split
  · exact .pure trivial
  refine Steady.bind (Steady.orM (.pure trivial) fun q₂ hgrow₂ => ?_) ?_
  · have hgrow := hgrow₁.trans hgrow₂
    exact steady_derivesFrom hg (hs.grow hgrow) (hgrow.keep hb) (hgrow.keep ha) _
  intro down q₂ hgrow₂ _ _
  split
  · exact .pure trivial
  have hgrow := hgrow₁.trans hgrow₂
  refine Steady.ofTypes fun t₂ ht₂ => ?_
  rw [ht₂.isInterface_eq hg (hgrow.keep ha), ht₂.isInterface_eq hg (hgrow.keep hb)]
  exact .pure trivial

/-! ## Taking `null` away -/

theorem peels_strip {n : Nat} (h : t.Peels (n + 1) ty) : t.Peels n (t.strip ty) := by
  unfold TypeTable.strip
  cases hi : t.nullableInner? ty with
  | none =>
    cases n with
    | zero => exact hi
    | succ n => simp [TypeTable.Peels, hi]
  | some inner => exact h inner hi

theorem peels_of_within {n : Nat} (h : t.Within n ty) : t.Peels n ty := by
  induction n generalizing ty with
  | zero => exact h.elim
  | succ n ih =>
    intro inner hi
    obtain ⟨shape, hs, hp⟩ := h
    unfold TypeTable.nullableInner? at hi
    rw [hs] at hi
    cases shape with
    | nullable inner' =>
      cases hi
      exact ih (hp _ (by simp [TypeShape.parts]))
    | _ => cases hi

theorem Later.isReference_eq (h : Later good t t') (hg : TypeTable.Hereditary good)
    (hty : good t ty) : t'.isReference ty = t.isReference ty := by
  rw [TypeTable.isReference, TypeTable.isReference, h.strip_eq hty,
    h.defAndArgs?_eq (hg.strip hty)]

theorem good_nullableInner (hg : TypeTable.Hereditary good) (hty : good t ty) {inner : TypeId}
    (h : t.nullableInner? ty = some inner) : good t inner := by
  have hstrip := hg.strip hty
  rwa [TypeTable.strip, h] at hstrip

/-- **Limits that two types do not reach give the same.** -/
theorem steady_classifyWithin (hg : TypeTable.Hereditary good) {n n' p : Nat}
    (hs : s.AllGood good q.types) (hsource : good q.types source) (htarget : good q.types target)
    (hn : n' = n ∨ q.types.Peels p source ∧ q.types.Peels p target ∧ p < n ∧ p < n') :
    Steady good (s.classifyWithin n source target) (s.classifyWithin n' source target) q
      fun _ _ => True := by
  induction n generalizing n' p source target with
  | zero =>
    rcases hn with rfl | ⟨-, -, hp, -⟩
    · exact .pure trivial
    · cases hp
  | succ n ih =>
    obtain ⟨m, rfl⟩ : ∃ m, n' = m + 1 := by
      rcases hn with rfl | ⟨-, -, -, hp⟩
      · exact ⟨n, rfl⟩
      · exact ⟨n' - 1, by omega⟩
    refine Steady.ofTypes fun t ht => ?_
    rw [ht.isReference_eq hg hsource, ht.isReference_eq hg htarget, ht.intrinsic?_eq hsource,
      ht.intrinsic?_eq htarget, ht.nullableInner?_eq hsource, ht.nullableInner?_eq htarget,
      ht.strip_eq hsource]
    split
    · exact .pure trivial
    split
    · exact steady_classifyReferences hg hs hsource htarget
    split
    · exact .pure trivial
    -- Only here does the limit go down: `null` is taken away from the target and the source, or
    -- from the source alone where the target has none.
    cases htn : q.types.nullableInner? target with
    | some inner =>
      have hrec : Steady good (s.classifyWithin n (q.types.strip source) inner)
          (s.classifyWithin m (q.types.strip source) inner) q fun _ _ => True := by
        refine ih (p := p - 1) (hg.strip hsource) (good_nullableInner hg htarget htn) ?_
        rcases hn with he | ⟨hps, hpt, hp, hp'⟩
        · exact .inl (Nat.succ.inj he)
        · cases p with
          | zero => simp [TypeTable.Peels, htn] at hpt
          | succ p => exact .inr ⟨peels_strip hps, hpt inner htn, by omega, by omega⟩
      exact hrec.bind fun _ _ _ _ _ => .pure trivial
    | none =>
      cases hsn : q.types.nullableInner? source with
      | none => exact .pure trivial
      | some inner =>
        have hrec : Steady good (s.classifyWithin n inner target)
            (s.classifyWithin m inner target) q fun _ _ => True := by
          refine ih (p := p - 1) (good_nullableInner hg hsource hsn) htarget ?_
          rcases hn with he | ⟨hps, -, hp, hp'⟩
          · exact .inl (Nat.succ.inj he)
          · cases p with
            | zero => simp [TypeTable.Peels, hsn] at hps
            | succ p =>
              have hpt : q.types.Peels p target := by
                cases p with
                | zero => exact htn
                | succ p => simp [TypeTable.Peels, htn]
              exact .inr ⟨hps inner hsn, hpt, by omega, by omega⟩
        exact hrec.bind fun _ _ _ _ _ => .pure trivial

/-- **The conversion from one type to another.** -/
theorem steady_classify (hg : TypeTable.Hereditary good) (hs : s.AllGood good q.types)
    (hsource : good q.types source) (htarget : good q.types target) :
    Steady good (s.classify source target) (s.classify source target) q fun _ _ => True := by
  refine Steady.ofTypes fun t ht => ?_
  refine steady_classifyWithin (p := q.types.size) hg hs hsource htarget ?_
  obtain ⟨hle, rfl | hk⟩ := ht
  · exact .inl rfl
  · have hsize := TypeTable.size_le_of_le hle
    exact .inr ⟨peels_of_within (hk hsource).within_size, peels_of_within (hk htarget).within_size,
      by omega, by omega⟩

end Conversion

end UpdateExpr
