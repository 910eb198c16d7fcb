import UpdateExpr.Proofs.Ty.Instantiation
import UpdateExpr.Symbol.Lineage

/-!
# Bases and interfaces are steady

The bases and interfaces of a type are found by instantiation, step by step. So the ways up from a
type are steady, and stay among the types with a property that the types of the symbol table have.

## Main definitions

* `SymbolTable.Uses`: a type that a symbol table mentions
* `SymbolTable.AllGood`: all of these have a property

## Main results

* `steady_baseChain`, `steady_interfaceClosure`: the ways up from a type
* `steady_derivesFromDefinition`: whether a definition derives from another
* `baseType_cases`, `directInterfaces_cases`: what a step up from a type can lead to
-/

namespace UpdateExpr

/-- A type stands in a symbol table: as a base, as an interface, or as a type of a member. -/
inductive SymbolTable.Uses (s : SymbolTable) : TypeId → Prop
  | base {d : DefId} {c : Definition} {ty : TypeId} (h : s.definition? d = some c)
    (hb : c.base? = some ty) : Uses s ty
  | interface {d : DefId} {c : Definition} {ty : TypeId} (h : s.definition? d = some c)
    (hi : ty ∈ c.interfaces) : Uses s ty
  | value {m : MemberId} {member : Member} (h : s.member? m = some member) :
    Uses s member.valueType
  | parameter {m : MemberId} {member : Member} {ty : TypeId} (h : s.member? m = some member)
    (hp : ty ∈ member.parameters) : Uses s ty

/-- All types of a symbol table have a property. -/
def SymbolTable.AllGood (s : SymbolTable) (good : TypeTable → TypeId → Prop) (t : TypeTable) :
    Prop :=
  ∀ ty, s.Uses ty → good t ty

section Lineage

variable {good : TypeTable → TypeId → Prop} {s : SymbolTable} {q : QueryState} {t t' : TypeTable}
  {ty : TypeId} {d : DefId} {args : List TypeId}

theorem SymbolTable.AllGood.grow (h : s.AllGood good t) (hgrow : Grows good t t') :
    s.AllGood good t' :=
  fun ty hty => hgrow.keep (h ty hty)

theorem any_congr_mem {α : Type} {p p' : α → Bool} {xs : List α} (h : ∀ x ∈ xs, p x = p' x) :
    xs.any p = xs.any p' := by
  induction xs with
  | nil => rfl
  | cons x xs ih =>
    rw [List.forall_mem_cons] at h
    rw [List.any_cons, List.any_cons, h.1, ih h.2]

theorem steady_baseType (hg : TypeTable.Hereditary good) (hs : s.AllGood good q.types)
    (hty : good q.types ty) :
    Steady good (s.baseType ty) (s.baseType ty) q fun t base => ∀ b ∈ base, good t b := by
  have none : ∀ q : QueryState, Steady good (pure none) (pure none) q
      fun t base => ∀ b ∈ base, good t b :=
    fun q => .pure (by simp)
  refine Steady.ofTypes fun t ht => ?_
  rw [ht.defAndArgs?_eq hty]
  cases hd : q.types.defAndArgs? ty with
  | none => exact none q
  | some pair =>
    obtain ⟨d, args⟩ := pair
    dsimp only
    cases hc : s.definition? d with
    | none => exact none q
    | some c =>
      dsimp only
      split
      · exact none q
      · cases hu : c.unresolvedBase? with
        | some missing => exact Steady.note.bind fun _ q' _ _ _ => none q'
        | none =>
          cases hb : c.base? with
          | none =>
            refine .pure ?_
            rintro b ⟨⟩
            exact hg.object _
          | some base =>
            have hbase : good q.types base := hs base (.base hc hb)
            refine (Steady.lift (steady_instantiate hg (hg.args hty hd) hbase)).bind ?_
            intro b q' _ hb' _
            refine .pure ?_
            rintro b' ⟨⟩
            exact hb'

theorem steady_climb (hg : TypeTable.Hereditary good) {n : Nat} {chain : List TypeId}
    {last : TypeId} (hs : s.AllGood good q.types) (hc : ∀ ty ∈ chain, good q.types ty)
    (hl : good q.types last) :
    Steady good (s.climb n chain last) (s.climb n chain last) q fun t chain =>
      ∀ ty ∈ chain, good t ty := by
  induction n generalizing chain last q with
  | zero => exact .pure hc
  | succ n ih =>
    refine (steady_baseType hg hs hl).bind fun base q₁ hgrow hbase _ => ?_
    have hc₁ : ∀ ty ∈ chain, good q₁.types ty := fun ty hty => hgrow.keep (hc ty hty)
    cases base with
    | none => exact .pure hc₁
    | some base =>
      have hb : good q₁.types base := hbase base rfl
      dsimp only
      split
      · exact .pure hc₁
      · refine ih (hs.grow hgrow) ?_ hb
        exact List.forall_mem_append.2 ⟨hc₁, by simpa using hb⟩

/-- **The bases of a type.** -/
theorem steady_baseChain (hg : TypeTable.Hereditary good) (hs : s.AllGood good q.types)
    (hty : good q.types ty) :
    Steady good (s.baseChain ty) (s.baseChain ty) q fun t chain => ∀ ty ∈ chain, good t ty :=
  steady_climb hg hs (by simpa using hty) hty

theorem steady_directInterfaces (hg : TypeTable.Hereditary good) (hs : s.AllGood good q.types)
    (hty : good q.types ty) :
    Steady good (s.directInterfaces ty) (s.directInterfaces ty) q fun t found =>
      ∀ ty ∈ found, good t ty := by
  refine Steady.ofTypes fun t ht => ?_
  rw [ht.defAndArgs?_eq hty]
  cases hd : q.types.defAndArgs? ty with
  | none => exact .pure (by simp)
  | some pair =>
    obtain ⟨d, args⟩ := pair
    dsimp only
    cases hc : s.definition? d with
    | none => exact .pure (by simp)
    | some c =>
      exact Steady.lift (steady_instantiateAll hg (hg.args hty hd)
        fun ty hi => hs ty (.interface hc hi))

theorem steady_spread (hg : TypeTable.Hereditary good) {n : Nat} {found waiting : List TypeId}
    (hs : s.AllGood good q.types) (hf : ∀ ty ∈ found, good q.types ty)
    (hw : ∀ ty ∈ waiting, good q.types ty) :
    Steady good (s.spread n found waiting) (s.spread n found waiting) q fun t found =>
      ∀ ty ∈ found, good t ty := by
  induction n generalizing found waiting q with
  | zero => exact .pure hf
  | succ n ih =>
    unfold SymbolTable.spread
    have hw' : ∀ ty ∈ waiting.dropWhile (· ∈ found), good q.types ty :=
      fun ty hty => hw ty ((List.dropWhile_sublist _).subset hty)
    cases hd : waiting.dropWhile (· ∈ found) with
    | nil => exact .pure hf
    | cons ty rest =>
      rw [hd, List.forall_mem_cons] at hw'
      refine (steady_directInterfaces hg hs hw'.1).bind fun next q₁ hgrow hnext _ => ?_
      refine ih (hs.grow hgrow) ?_ ?_
      · refine List.forall_mem_append.2 ⟨fun ty hty => hgrow.keep (hf ty hty), ?_⟩
        exact List.forall_mem_singleton.2 (hgrow.keep hw'.1)
      · exact List.forall_mem_append.2 ⟨fun ty hty => hgrow.keep (hw'.2 ty hty), hnext⟩

/-- **The interfaces that are reached from a type.** -/
theorem steady_interfaceClosure (hg : TypeTable.Hereditary good) (hs : s.AllGood good q.types)
    (hty : good q.types ty) :
    Steady good (s.interfaceClosure ty) (s.interfaceClosure ty) q fun t found =>
      ∀ ty ∈ found, good t ty :=
  steady_spread hg hs nofun (by simpa using hty)

theorem steady_declaredType (hg : TypeTable.Hereditary good) (s : SymbolTable) (d : DefId) :
    Steady good (s.declaredType d) (s.declaredType d) t good := by
  have hmap : ∀ count, Steady good ((List.range count).mapM (TypeTable.parameter d))
      ((List.range count).mapM (TypeTable.parameter d)) t fun t params => ∀ p ∈ params, good t p :=
    fun count => Steady.mapM (fun _ _ _ hgrow => hgrow.keep)
      fun index _ t' _ => steady_parameter hg d index
  exact (hmap _).bind fun params t' _ hparams _ => steady_applied hg d hparams

/-- **Whether a definition derives from another.** -/
theorem steady_derivesFromDefinition (hg : TypeTable.Hereditary good)
    (hs : s.AllGood good q.types) (d target : DefId) :
    Steady good (s.derivesFromDefinition d target) (s.derivesFromDefinition d target) q
      fun _ _ => True := by
  refine (Steady.lift (steady_declaredType hg s d)).bind fun start q₁ hgrow₁ hstart _ => ?_
  refine (steady_baseChain hg (hs.grow hgrow₁) hstart).bind fun chain q₂ _ hchain _ => ?_
  refine Steady.ofTypes fun t ht => ?_
  have hsame : (chain.any fun ty => (t.defAndArgs? ty).any (·.1 == target)) =
      chain.any fun ty => (q₂.types.defAndArgs? ty).any (·.1 == target) := by
    refine any_congr_mem fun ty hty => ?_
    rw [ht.defAndArgs?_eq (hchain ty hty)]
  rw [hsame]
  exact .pure trivial

end Lineage

/-! ## One step up -/

section Runs

variable {s : SymbolTable} {q : QueryState} {ty base : TypeId} {d : DefId} {args : List TypeId}
  {c : Definition}

theorem baseType_of_none (h : q.types.defAndArgs? ty = none) : s.baseType ty q = (none, q) := by
  unfold SymbolTable.baseType
  rw [ofTypes_apply]
  simp only [h]
  rfl

/-- **A base** is one of a class that is there: the one that is declared, or else `object`. -/
theorem baseType_cases (h : (s.baseType ty q).1 = some base) :
    ∃ d args c, q.types.defAndArgs? ty = some (d, args) ∧ s.definition? d = some c ∧
      (base = .object ∨ ∃ declared, c.base? = some declared ∧
        (base, (s.baseType ty q).2.types) =
          Substitution.instantiate ⟨some d, args⟩ declared q.types) := by
  unfold SymbolTable.baseType at h ⊢
  rw [ofTypes_apply] at h ⊢
  cases hd : q.types.defAndArgs? ty with
  | none =>
    simp only [hd] at h
    cases h
  | some pair =>
    obtain ⟨d, args⟩ := pair
    simp only [hd] at h ⊢
    cases hc : s.definition? d with
    | none =>
      simp only [hc] at h
      cases h
    | some c =>
      simp only [hc] at h ⊢
      refine ⟨d, args, c, rfl, hc, ?_⟩
      cases hi : c.isInterface with
      | true =>
        rw [hi, if_pos rfl] at h
        cases h
      | false =>
        rw [hi, if_neg Bool.false_ne_true] at h
        rw [if_neg Bool.false_ne_true]
        cases hu : c.unresolvedBase? with
        | some missing =>
          simp only [hu] at h
          cases h
        | none =>
          simp only [hu] at h ⊢
          cases hb : c.base? with
          | none =>
            simp only [hb] at h
            cases h
            exact .inl rfl
          | some declared =>
            simp only [hb] at h ⊢
            cases h
            exact .inr ⟨declared, rfl, rfl⟩

theorem climb_succ_of_none {n : Nat} {chain : List TypeId} {last : TypeId}
    (h : (s.baseType last q).1 = none) :
    s.climb (n + 1) chain last q = (chain, (s.baseType last q).2) := by
  rw [SymbolTable.climb, bind_apply]
  simp only [h]
  rfl

theorem climb_succ_of_some {n : Nat} {chain : List TypeId} {last : TypeId}
    (h : (s.baseType last q).1 = some base) :
    s.climb (n + 1) chain last q = if base ∈ chain then (chain, (s.baseType last q).2)
      else s.climb n (chain ++ [base]) base (s.baseType last q).2 := by
  rw [SymbolTable.climb, bind_apply]
  simp only [h]
  split <;> rfl

/-- What a type names as its interfaces is what its definition names, with type arguments. -/
theorem directInterfaces_cases (s : SymbolTable) (ty : TypeId) (q : QueryState) :
    (s.directInterfaces ty q).1 = [] ∨ ∃ d args c, q.types.defAndArgs? ty = some (d, args) ∧
      s.definition? d = some c ∧
      ((s.directInterfaces ty q).1, (s.directInterfaces ty q).2.types) =
        Substitution.instantiateAll ⟨some d, args⟩ c.interfaces q.types := by
  unfold SymbolTable.directInterfaces
  rw [ofTypes_apply]
  cases hd : q.types.defAndArgs? ty with
  | none => exact .inl rfl
  | some pair =>
    obtain ⟨d, args⟩ := pair
    simp only
    cases hc : s.definition? d with
    | none => exact .inl rfl
    | some c => exact .inr ⟨d, args, c, rfl, hc, rfl⟩

end Runs

end UpdateExpr
