import UpdateExpr.Proofs.Symbol.Upward

/-!
# Derivation and identity

A type should derive from what is identical to it. Derivation looks at the type without its `null`,
and at the target as it is. So where `null` does not matter, identical types derive from each other;
where it does, a type that has `null` is not found again among its own bases.

## Main results

* `areIdentical_strip`: where `null` does not matter, a type without its `null` stands for the type
* `derivesFrom_iff_of_areIdentical`: when a type derives from what is identical to it
* `not_derivesFrom_nullable`: a type with `null` does not derive from itself
-/

namespace UpdateExpr

section SelfDerivation

variable {a b : TypeId}

/-- The bases of a type begin with the type itself. -/
theorem self_mem_baseChain (s : SymbolTable) (a : TypeId) (q : QueryState) :
    a ∈ (s.baseChain a q).1 :=
  List.mem_of_head? (head?_climb (List.cons_ne_nil a []))

/-- What is asked for from a state, where the bases of a type are known. -/
theorem derivesFrom_apply (s : SymbolTable) (strictness : Strictness) (a b : TypeId)
    (q : QueryState) : (s.derivesFrom strictness a b q).1 =
      (s.baseChain (q.types.strip a) q).1.any
        ((s.baseChain (q.types.strip a) q).2.types.areIdentical strictness · b) := rfl

/-- Where `null` does not matter, a type without its `null` is identical to what the type is
identical to, also in a table that has grown. -/
theorem areIdentical_strip {t t' : TypeTable} (hle : t ≤ t') (ha : t.Normal a) (hb : t.Normal b)
    (h : t.areIdentical .ignoreNull a b = true) :
    t'.areIdentical .ignoreNull (t.strip a) b = true := by
  obtain ⟨hbare, -, hsame⟩ := ha.strip
  have hlater : Later TypeTable.Interned t t' := ⟨hle, .inr id⟩
  rw [hlater.areIdentical_eq hbare.interned hb.interned, hbare.areIdentical_iff hb, hsame]
  exact (ha.areIdentical_iff hb).1 h

/-- **When a type derives from what is identical to it.** It always does where `null` does not
matter. Where it does, the type is found exactly if it has no `null`, or else if it is, with its
`null`, one of the bases of what it is without. -/
theorem derivesFrom_iff_of_areIdentical (s : SymbolTable) {q : QueryState} {a b : TypeId}
    {strictness : Strictness} (ha : q.types.Normal a) (hb : q.types.Normal b)
    (h : q.types.areIdentical strictness a b = true) :
    (s.derivesFrom strictness a b q).1 = true ↔ strictness = .ignoreNull ∨
      q.types.nullableInner? a = none ∨ a ∈ (s.baseChain (q.types.strip a) q).1 := by
  rw [derivesFrom_apply, List.any_eq_true]
  cases strictness with
  | ignoreNull =>
    have hle := le_baseChain s (q.types.strip a) q
    have hself := areIdentical_strip hle ha hb h
    exact ⟨fun _ => .inl rfl, fun _ => ⟨_, self_mem_baseChain s _ q, hself⟩⟩
  | exact =>
    -- Identical types are equal here, so a type is looked for among the bases of its bare self.
    rw [TypeTable.areIdentical_exact, beq_iff_eq] at h
    subst h
    simp only [TypeTable.areIdentical_exact, beq_iff_eq, exists_eq_right, reduceCtorEq, false_or]
    constructor
    · exact .inr
    · rintro (hno | hmem)
      · have hmem := self_mem_baseChain s (q.types.strip a) q
        rwa [strip_of_nullableInner?_eq_none hno] at hmem ⊢
      · exact hmem

end SelfDerivation

/-- A class `D`. -/
def loneSymbols : SymbolTable where
  definitions := #[{ name := "D" }]

/-- The type `D`, and `D` with `null`. -/
def loneTypes : TypeTable :=
  (TypeTable.nullable ⟨8⟩ (TypeTable.plain ⟨0⟩ {}).2).2

theorem normal_loneTypes {ty : TypeId} (h : ty.index < loneTypes.size) : loneTypes.Normal ty :=
  (TypeTable.Made.nullable (.plain .empty _) (by decide +kernel)).normal ty h

/-- Up to `null`, `D` with `null` is identical to `D`, and derives from it. -/
theorem derivesFrom_of_areIdentical_of_lone :
    (loneTypes.Normal ⟨9⟩ ∧ loneTypes.Normal ⟨8⟩ ∧
      loneTypes.areIdentical .ignoreNull ⟨9⟩ ⟨8⟩ = true) ∧
    (loneSymbols.derivesFrom .ignoreNull ⟨9⟩ ⟨8⟩ { types := loneTypes }).1 = true := by
  have hn : loneTypes.Normal ⟨9⟩ := normal_loneTypes (by decide +kernel)
  have hd : loneTypes.Normal ⟨8⟩ := normal_loneTypes (by decide +kernel)
  have hsame : loneTypes.areIdentical .ignoreNull ⟨9⟩ ⟨8⟩ = true := by decide +kernel
  exact ⟨⟨hn, hd, hsame⟩, (derivesFrom_iff_of_areIdentical loneSymbols hn hd hsame).2 (.inl rfl)⟩

/-- **A type with `null` does not derive from itself** where `null` matters, although it is
identical to itself. -/
theorem not_derivesFrom_nullable :
    loneTypes.shape? ⟨9⟩ = some (.nullable ⟨8⟩) ∧
      loneTypes.areIdentical .exact ⟨9⟩ ⟨9⟩ = true ∧
      (loneSymbols.derivesFrom .exact ⟨9⟩ ⟨9⟩ { types := loneTypes }).1 = false := by
  decide +kernel

end UpdateExpr
