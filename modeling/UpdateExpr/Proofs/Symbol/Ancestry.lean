import Mathlib.Logic.Relation
import UpdateExpr.Proofs.Symbol.Lineage
import UpdateExpr.Proofs.Symbol.Lookup

/-!
# Ancestry follows the definitions

A definition links to the definitions of its base and of its interfaces. Type arguments do not
matter to this: to instantiate a type keeps the definition that it applies. So whatever is found on
the way up from a type, among its bases or its interfaces, applies a definition that is reached by
links. Where no definition is reached from itself, nothing that is found there leads back.

## Main definitions

* `TypeTable.head?`: the definition that a type applies
* `SymbolTable.Links`: a definition names another one as its base or as an interface
* `SymbolTable.Ordered`: bases are classes, interfaces are interfaces, and links make no circle
* `SymbolTable.Above`: the definition of a type is reached from that of another

## Main results

* `head?_instantiate`: to instantiate a type keeps its definition
* `mem_baseChain`, `mem_interfaceClosure`: what is found on the way up is reached by links
* `SymbolTable.Ordered.not_above`: links lead one way only
-/

namespace UpdateExpr

/-- The definition that a type applies. -/
def TypeTable.head? (t : TypeTable) (ty : TypeId) : Option DefId :=
  (t.shape? ty).bind TypeShape.definition?

/-- A type applies a definition that is there, a class or an interface. -/
def SymbolTable.Applies (s : SymbolTable) (t : TypeTable) (ty : TypeId) (isInterface : Bool) :
    Prop :=
  ∃ d c, t.head? ty = some d ∧ s.definition? d = some c ∧ c.isInterface = isInterface

/-- A definition names another one as its base or as an interface. -/
def SymbolTable.Links (s : SymbolTable) (t : TypeTable) (d e : DefId) : Prop :=
  ∃ c ty, s.definition? d = some c ∧ (c.base? = some ty ∨ ty ∈ c.interfaces) ∧ t.head? ty = some e

/-- All bases are classes, all interfaces are interfaces, and no definition leads back to itself. -/
structure SymbolTable.Ordered (s : SymbolTable) (t : TypeTable) : Prop where
  base : ∀ {d c ty}, s.definition? d = some c → c.base? = some ty →
    t.Interned ty ∧ (ty = .object ∨ s.Applies t ty false)
  interface : ∀ {d c ty}, s.definition? d = some c → ty ∈ c.interfaces →
    t.Interned ty ∧ s.Applies t ty true
  acyclic : ∀ d, ¬ Relation.TransGen (s.Links t) d d

/-- Where links lead to higher numbers only, none lead back. -/
theorem not_transGen_self_of_index_lt {r : DefId → DefId → Prop}
    (h : ∀ {d e}, r d e → d.index < e.index) (d : DefId) : ¬ Relation.TransGen r d d := by
  have hlinks : ∀ {e}, Relation.TransGen r d e → d.index < e.index := by
    intro e hde
    induction hde with
    | single hlink => exact h hlink
    | tail _ hlink ih => exact ih.trans (h hlink)
  exact fun hself => Nat.lt_irrefl _ (hlinks hself)

/-- The definition of a type is reached by links from that of another; both types are those of a
table that may have more types than the definitions know. -/
def SymbolTable.Above (s : SymbolTable) (t t' : TypeTable) (ty upper : TypeId) : Prop :=
  ∃ d e, t'.head? ty = some d ∧ t'.head? upper = some e ∧ Relation.TransGen (s.Links t) d e

section Ancestry

variable {s : SymbolTable} {t t' t'' : TypeTable} {q : QueryState} {a b c ty : TypeId} {d e : DefId}
  {σ : Substitution} {isInterface : Bool}

/-! ## The definition of a type -/

theorem head?_eq_map (t : TypeTable) (ty : TypeId) : t.head? ty = (t.defAndArgs? ty).map (·.1) := by
  unfold TypeTable.head? TypeTable.defAndArgs?
  rcases t.shape? ty with _ | (_ | _ | _ | _ | _) <;> rfl

theorem head?_of_defAndArgs? {args : List TypeId} (h : t.defAndArgs? ty = some (d, args)) :
    t.head? ty = some d := by
  rw [head?_eq_map, h]
  rfl

theorem head?_of_le (h : t ≤ t') (hd : t.head? ty = some d) : t'.head? ty = some d := by
  obtain ⟨shape, hs, hd⟩ := Option.bind_eq_some_iff.1 hd
  exact Option.bind_eq_some_iff.2 ⟨shape, TypeTable.shape?_of_le h hs, hd⟩

theorem head?_object (t : TypeTable) : t.head? .object = none := by
  rw [TypeTable.head?, show t.shape? .object = _ from t.shape?_id .object]
  rfl

theorem head?_applied (d : DefId) (args : List TypeId) (t : TypeTable) :
    (TypeTable.applied d args t).2.head? (TypeTable.applied d args t).1 = some d := by
  cases args with
  | nil =>
    exact Option.bind_eq_some_iff.2 ⟨.plain d, TypeTable.shape?_intern t _, rfl⟩
  | cons arg args =>
    exact Option.bind_eq_some_iff.2 ⟨.applied d (arg :: args), TypeTable.shape?_intern t _, rfl⟩

/-- **To instantiate a type keeps its definition.** -/
theorem head?_instantiate (h : t.head? ty = some d) :
    (σ.instantiate ty t).2.head? (σ.instantiate ty t).1 = some d := by
  unfold Substitution.instantiate
  split
  · exact h
  · have hpos : 0 < σ.reach t ty :=
      (Nat.zero_lt_of_lt t.eight_le_size).trans_le (size_le_reach σ t ty)
    obtain ⟨n, hn⟩ := Nat.exists_eq_add_one.2 hpos
    rw [hn]
    obtain ⟨shape, hs, hd⟩ := Option.bind_eq_some_iff.1 h
    simp only [Substitution.instantiateTo, hs]
    cases shape with
    | plain _ => exact h
    | applied e args =>
      cases hd
      exact head?_applied d _ _
    | _ => cases hd

theorem mem_instantiateAll {tys : List TypeId} (h : b ∈ (σ.instantiateAll tys t).1) :
    ∃ a ∈ tys, ∀ d, t.head? a = some d → (σ.instantiateAll tys t).2.head? b = some d := by
  induction tys generalizing t with
  | nil => cases h
  | cons ty tys ih =>
    have hrun : σ.instantiateAll (ty :: tys) t =
        ((σ.instantiate ty t).1 :: (σ.instantiateAll tys (σ.instantiate ty t).2).1,
          (σ.instantiateAll tys (σ.instantiate ty t).2).2) := rfl
    rw [hrun] at h ⊢
    rcases List.mem_cons.1 h with rfl | h
    · refine ⟨ty, by simp, fun d hd => ?_⟩
      exact head?_of_le (le_instantiateAll σ tys _) (head?_instantiate hd)
    · obtain ⟨a, ha, hhead⟩ := ih h
      refine ⟨a, List.mem_cons_of_mem _ ha, fun d hd => ?_⟩
      exact hhead d (head?_of_le (le_instantiate σ ty t) hd)

/-! ## One link -/

/-- **The base of a type** is `object`, or it is linked to. -/
theorem head?_baseType (hs : s.Ordered t) (ht : t ≤ q.types) (h : (s.baseType ty q).1 = some b) :
    b = .object ∨ ∃ d e, q.types.head? ty = some d ∧ (s.baseType ty q).2.types.head? b = some e ∧
      s.Links t d e := by
  obtain ⟨d, args, c, hd, hc, rfl | ⟨declared, hb, hrun⟩⟩ := baseType_cases h
  · exact .inl rfl
  · rcases (hs.base hc hb).2 with rfl | ⟨e, -, he, -⟩
    · have hobject := Substitution.instantiate_id ⟨some d, args⟩ .object q.types
      exact .inl (congrArg Prod.fst (hrun.trans hobject))
    · have hbase : (s.baseType ty q).2.types.head? b = some e :=
        (congrArg (fun r => r.2.head? r.1) hrun).trans (head?_instantiate (head?_of_le ht he))
      exact .inr ⟨d, e, head?_of_defAndArgs? hd, hbase, c, declared, hc, .inl hb, he⟩

theorem head?_directInterfaces (hs : s.Ordered t) (ht : t ≤ q.types)
    (h : b ∈ (s.directInterfaces ty q).1) :
    ∃ d e c, q.types.head? ty = some d ∧ (s.directInterfaces ty q).2.types.head? b = some e ∧
      s.Links t d e ∧ s.definition? e = some c ∧ c.isInterface = true := by
  rcases directInterfaces_cases s ty q with hnone | ⟨d, args, c, hd, hc, hrun⟩
  · rw [hnone] at h
    cases h
  · obtain ⟨hbases, htypes⟩ := Prod.mk.inj hrun
    rw [hbases] at h
    obtain ⟨a, ha, hhead⟩ := mem_instantiateAll h
    obtain ⟨-, e, c', he, hc', hi⟩ := hs.interface hc ha
    rw [← htypes] at hhead
    exact ⟨d, e, c', head?_of_defAndArgs? hd, hhead e (head?_of_le ht he),
      ⟨c, a, hc, .inr ha, he⟩, hc', hi⟩

/-! ## The way up -/

theorem SymbolTable.Above.mono (h : s.Above t t' a b) (hle : t' ≤ t'') : s.Above t t'' a b := by
  obtain ⟨d, e, hd, he, hlinks⟩ := h
  exact ⟨d, e, head?_of_le hle hd, head?_of_le hle he, hlinks⟩

theorem SymbolTable.Above.trans (h : s.Above t t' a b) (h' : s.Above t t' b c) :
    s.Above t t' a c := by
  obtain ⟨d, e, hd, he, hlinks⟩ := h
  obtain ⟨e', f, he', hf, hlinks'⟩ := h'
  obtain rfl := Option.some.inj (he.symm.trans he')
  exact ⟨d, f, hd, hf, hlinks.trans hlinks'⟩

theorem SymbolTable.Above.left_ne_object (h : s.Above t t' a b) : a ≠ .object := by
  rintro rfl
  obtain ⟨d, -, hd, -⟩ := h
  rw [head?_object] at hd
  cases hd

/-- **Links lead one way only.** -/
theorem SymbolTable.Ordered.not_above (hs : s.Ordered t) (h : s.Above t t' a b) :
    ¬ s.Above t t' b a := by
  intro h'
  obtain ⟨d, e, hd, he, hlinks⟩ := h.trans h'
  obtain rfl := Option.some.inj (hd.symm.trans he)
  exact hs.acyclic d hlinks

/-- What is found among the bases of a type: the type itself, `object`, or what its definition links
to. -/
def SymbolTable.BaseOf (s : SymbolTable) (t t' : TypeTable) (ty base : TypeId) : Prop :=
  base = ty ∨ base = .object ∨ s.Above t t' ty base

/-- What is found among the interfaces of a type: the type itself, or an interface that its
definition links to. -/
def SymbolTable.InterfaceOf (s : SymbolTable) (t t' : TypeTable) (ty interface : TypeId) : Prop :=
  interface = ty ∨ s.Above t t' ty interface ∧ s.Applies t' interface true

theorem SymbolTable.BaseOf.mono (h : s.BaseOf t t' a b) (hle : t' ≤ t'') : s.BaseOf t t'' a b :=
  h.imp_right (.imp_right (·.mono hle))

theorem SymbolTable.Applies.mono (h : s.Applies t ty isInterface) (hle : t ≤ t') :
    s.Applies t' ty isInterface := by
  obtain ⟨d, c, hd, hc, hi⟩ := h
  exact ⟨d, c, head?_of_le hle hd, hc, hi⟩

theorem SymbolTable.InterfaceOf.mono (h : s.InterfaceOf t t' a b) (hle : t' ≤ t'') :
    s.InterfaceOf t t'' a b :=
  h.imp_right fun ⟨ha, hi⟩ => ⟨ha.mono hle, hi.mono hle⟩

theorem le_baseType (s : SymbolTable) (ty : TypeId) (q : QueryState) :
    q.types ≤ (s.baseType ty q).2.types :=
  (steady_baseType TypeTable.hereditary_true (fun _ _ => trivial) trivial).grows.le

theorem le_directInterfaces (s : SymbolTable) (ty : TypeId) (q : QueryState) :
    q.types ≤ (s.directInterfaces ty q).2.types :=
  (steady_directInterfaces TypeTable.hereditary_true (fun _ _ => trivial) trivial).grows.le

/-- What passes from a type to its base passes to all bases. -/
theorem forall_mem_climb {P : TypeTable → TypeId → Prop}
    (hmono : ∀ {u u' x}, u ≤ u' → P u x → P u' x)
    (hstep : ∀ {x b} {q : QueryState}, t ≤ q.types → P q.types x → (s.baseType x q).1 = some b →
      P (s.baseType x q).2.types b)
    {n : Nat} {chain : List TypeId} {last : TypeId} (ht : t ≤ q.types)
    (hc : ∀ x ∈ chain, P q.types x) (hl : P q.types last) :
    ∀ x ∈ (s.climb n chain last q).1, P (s.climb n chain last q).2.types x := by
  induction n generalizing chain last q with
  | zero => exact hc
  | succ n ih =>
    have hle := le_baseType s last q
    have hc' : ∀ x ∈ chain, P (s.baseType last q).2.types x := fun x hx => hmono hle (hc x hx)
    cases hb : (s.baseType last q).1 with
    | none =>
      rw [climb_succ_of_none hb]
      exact hc'
    | some base =>
      have hbase := hstep ht hl hb
      rw [climb_succ_of_some hb]
      split
      · exact hc'
      · refine ih (ht.trans hle) (List.forall_mem_append.2 ⟨hc', ?_⟩) hbase
        exact List.forall_mem_singleton.2 hbase

theorem mem_climb (hs : s.Ordered t) {n : Nat} {chain : List TypeId} {last : TypeId}
    (ht : t ≤ q.types) (hc : ∀ x ∈ chain, s.BaseOf t q.types ty x)
    (hl : s.BaseOf t q.types ty last) :
    ∀ x ∈ (s.climb n chain last q).1, s.BaseOf t (s.climb n chain last q).2.types ty x := by
  refine forall_mem_climb (P := fun u x => s.BaseOf t u ty x) (fun hle h => h.mono hle)
    (fun {last base q} ht hl hb => ?_) ht hc hl
  rcases head?_baseType hs ht hb with rfl | ⟨d, e, hd, he, hlink⟩
  · exact .inr (.inl rfl)
  · have hle := le_baseType s last q
    have hstep : s.Above t (s.baseType last q).2.types last base :=
      ⟨d, e, head?_of_le hle hd, he, .single hlink⟩
    rcases hl.mono hle with rfl | rfl | hl
    · exact .inr (.inr hstep)
    · exact absurd rfl hstep.left_ne_object
    · exact .inr (.inr (hl.trans hstep))

/-- **What is found among the bases of a type is reached by links.** -/
theorem mem_baseChain (hs : s.Ordered t) (ht : t ≤ q.types) (ty : TypeId) :
    ∀ x ∈ (s.baseChain ty q).1, s.BaseOf t (s.baseChain ty q).2.types ty x :=
  mem_climb hs ht (List.forall_mem_singleton.2 (.inl rfl)) (.inl rfl)

/-- What passes from a type to the interfaces that it names passes to all that it reaches. -/
theorem forall_mem_spread {P : TypeTable → TypeId → Prop}
    (hmono : ∀ {u u' x}, u ≤ u' → P u x → P u' x)
    (hstep : ∀ {x} {q : QueryState}, t ≤ q.types → P q.types x →
      ∀ y ∈ (s.directInterfaces x q).1, P (s.directInterfaces x q).2.types y)
    {n : Nat} {found waiting : List TypeId} (ht : t ≤ q.types) (hf : ∀ x ∈ found, P q.types x)
    (hw : ∀ x ∈ waiting, P q.types x) :
    ∀ x ∈ (s.spread n found waiting q).1, P (s.spread n found waiting q).2.types x := by
  induction n generalizing found waiting q with
  | zero => exact hf
  | succ n ih =>
    unfold SymbolTable.spread
    have hw' : ∀ x ∈ waiting.dropWhile (· ∈ found), P q.types x :=
      fun x hx => hw x ((List.dropWhile_sublist _).subset hx)
    cases hd : waiting.dropWhile (· ∈ found) with
    | nil => exact hf
    | cons first rest =>
      rw [hd, List.forall_mem_cons] at hw'
      have hle := le_directInterfaces s first q
      show ∀ x ∈ (s.spread n (found ++ [first]) (rest ++ (s.directInterfaces first q).1)
        (s.directInterfaces first q).2).1, P (s.spread n (found ++ [first])
          (rest ++ (s.directInterfaces first q).1) (s.directInterfaces first q).2).2.types x
      refine ih (ht.trans hle) ?_ ?_
      · refine List.forall_mem_append.2 ⟨fun x hx => hmono hle (hf x hx), ?_⟩
        exact List.forall_mem_singleton.2 (hmono hle hw'.1)
      · exact List.forall_mem_append.2 ⟨fun x hx => hmono hle (hw'.2 x hx), hstep ht hw'.1⟩

theorem mem_spread (hs : s.Ordered t) {n : Nat} {found waiting : List TypeId} (ht : t ≤ q.types)
    (hf : ∀ x ∈ found, s.InterfaceOf t q.types ty x)
    (hw : ∀ x ∈ waiting, s.InterfaceOf t q.types ty x) :
    ∀ x ∈ (s.spread n found waiting q).1,
      s.InterfaceOf t (s.spread n found waiting q).2.types ty x := by
  refine forall_mem_spread (P := fun u x => s.InterfaceOf t u ty x) (fun hle h => h.mono hle)
    (fun {first q} ht hfirst x hx => ?_) ht hf hw
  obtain ⟨d, e, c, hd, he, hlink, hc, hi⟩ := head?_directInterfaces hs ht hx
  have hle := le_directInterfaces s first q
  have hstep : s.Above t (s.directInterfaces first q).2.types first x :=
    ⟨d, e, head?_of_le hle hd, he, .single hlink⟩
  refine .inr ⟨?_, e, c, he, hc, hi⟩
  rcases hfirst.mono hle with rfl | ⟨hfirst, -⟩
  · exact hstep
  · exact hfirst.trans hstep

/-- **What is found among the interfaces of a type is reached by links.** -/
theorem mem_interfaceClosure (hs : s.Ordered t) (ht : t ≤ q.types) (ty : TypeId) :
    ∀ x ∈ (s.interfaceClosure ty q).1,
      s.InterfaceOf t (s.interfaceClosure ty q).2.types ty x :=
  mem_spread hs ht (List.forall_mem_nil _) (List.forall_mem_singleton.2 (.inl rfl))

end Ancestry

end UpdateExpr
