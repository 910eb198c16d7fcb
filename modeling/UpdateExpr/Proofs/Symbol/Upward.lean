import Mathlib.Data.List.TakeWhile
import UpdateExpr.Proofs.Symbol.Reversal
import UpdateExpr.Proofs.Ty.Composition
import UpdateExpr.Proofs.Ty.Erasure
import UpdateExpr.Proofs.Walk

/-!
# The way up in trees

What stands above a type depends on what the type is and not on its handle. Its base and its
interfaces have trees that come from its own tree by substitution of its arguments. The walks over
bases and interfaces follow these trees, whatever types the table gets on the way. They find each
tree once, and all that are reached, or as many as their limit allows.

## Main definitions

* `QueryM.trees`: the types that a question gives, as trees
* `Definition.declaredBase?`: the base that a definition declares
* `SymbolTable.baseTree`, `SymbolTable.interfaceTrees`: what a tree has above it
* `SymbolTable.Ancestor`, `SymbolTable.Reaches`: what is reached by way of bases, and of interfaces
* `WithinLimit`: no more is reached than the limit of a walk allows

## Main results

* `expand_baseType`, `expand_directInterfaces`: one step up from a type
* `upTo_baseChain`, `upTo_interfaceClosure`: the bases and the interfaces of a type, up to the limit
* `derivesFrom_iff_ancestor`, `implements_iff_reaches`: relations see all that the limit allows
-/

namespace UpdateExpr

/-! ## Trees above a tree -/

/-- The base that a definition declares, which is `object` where it is left out. An interface has
none, nor has a class whose base could not be loaded. -/
def Definition.declaredBase? (c : Definition) : Option TypeId :=
  if c.isInterface || c.unresolvedBase?.isSome then none else some (c.base?.getD .object)

namespace Ty

/-- The definition and the arguments of a tree. -/
def defAndArgs? : Ty → Option (DefId × List Ty)
  | .plain d => some (d, [])
  | .applied d args => some (d, args)
  | .unknown _ | .intrinsic _ | .parameter _ _ | .nullable _ => none

/-- What some arguments of a definition put in the place of a parameter. -/
def argTree (d : DefId) (args : List Ty) (owner : DefId) (index : Nat) : Ty :=
  (if d = owner then args[index]? else none).getD (.parameter owner index)

end Ty

namespace SymbolTable

/-- The base of a tree, with its arguments in place. -/
def baseTree (s : SymbolTable) (t : TypeTable) (ty : Ty) : Option Ty :=
  match ty.defAndArgs? with
  | none => none
  | some (d, args) => ((s.definition? d).bind Definition.declaredBase?).map fun base =>
      (t.expand base).subst (Ty.argTree d args)

/-- The interfaces that the definition of a tree names, with its arguments in place. -/
def interfaceTrees (s : SymbolTable) (t : TypeTable) (ty : Ty) : List Ty :=
  match ty.defAndArgs? with
  | none => []
  | some (d, args) => (((s.definition? d).map Definition.interfaces).getD []).map fun interface =>
      (t.expand interface).subst (Ty.argTree d args)

/-- All bases that are declared are in normal form. -/
def NormalBases (s : SymbolTable) (t : TypeTable) : Prop :=
  ∀ {d c base}, s.definition? d = some c → c.declaredBase? = some base → t.Normal base

/-- All interfaces that definitions name are in normal form. -/
def NormalInterfaces (s : SymbolTable) (t : TypeTable) : Prop :=
  ∀ {d c interface}, s.definition? d = some c → interface ∈ c.interfaces → t.Normal interface

/-- A tree stands above another one as its base. -/
def Derives (s : SymbolTable) (t : TypeTable) (ty base : Ty) : Prop :=
  s.baseTree t ty = some base

/-- A tree is another one, or stands above it by way of bases. -/
def Ancestor (s : SymbolTable) (t : TypeTable) : Ty → Ty → Prop :=
  Relation.ReflTransGen (s.Derives t)

/-- The definition of a tree names an interface. -/
def Extends (s : SymbolTable) (t : TypeTable) (ty interface : Ty) : Prop :=
  interface ∈ s.interfaceTrees t ty

/-- A tree is another one, or stands above it by way of interfaces. -/
def Reaches (s : SymbolTable) (t : TypeTable) : Ty → Ty → Prop :=
  Relation.ReflTransGen (s.Extends t)

end SymbolTable

/-- No more trees are reached from one than the limit of a walk allows. -/
def WithinLimit (r : Ty → Ty → Prop) (x : Ty) : Prop :=
  {y | Relation.ReflTransGen r x y}.encard ≤ (maxBaseSteps + 1 : ℕ)

section Upward

variable {s : SymbolTable} {t : TypeTable} {q : QueryState} {ty base : TypeId} {d : DefId}
  {args : List TypeId} {c : Definition} {start x y : Ty}

/-! ## One step up -/

/-- A base that a definition declares is the one that is given, or `object`. -/
theorem base_of_declaredBase? (h : c.declaredBase? = some base) :
    c.base? = some base ∨ base = .object := by
  unfold Definition.declaredBase? at h
  split at h
  · cases h
  · cases hb : c.base? with
    | some declared =>
      rw [hb] at h
      exact .inl h
    | none =>
      rw [hb] at h
      exact .inr (Option.some.inj h).symm

theorem baseTree_plain (s : SymbolTable) (t : TypeTable) (d : DefId) :
    s.baseTree t (.plain d) = ((s.definition? d).bind Definition.declaredBase?).map fun base =>
      (t.expand base).subst (Ty.argTree d []) := rfl

theorem interfaceTrees_plain (s : SymbolTable) (t : TypeTable) (d : DefId) :
    s.interfaceTrees t (.plain d) = (((s.definition? d).map Definition.interfaces).getD []).map
      fun interface => (t.expand interface).subst (Ty.argTree d []) := rfl

theorem paramTree_eq_argTree (d : DefId) (args : List TypeId) (t : TypeTable) :
    Substitution.paramTree ⟨some d, args⟩ t = Ty.argTree d (args.map t.expand) := by
  funext owner index
  unfold Substitution.paramTree Substitution.get? Ty.argTree
  by_cases h : d = owner
  · rw [if_pos (congrArg some h), if_pos h, List.getElem?_map]
  · rw [if_neg fun he => h (Option.some.inj he), if_neg h]
    rfl

/-- The tree of a type shows its definition and the trees of its arguments. -/
theorem defAndArgs?_expand (h : t.Normal ty) : (t.expand ty).defAndArgs? =
    (t.defAndArgs? ty).map fun (d, args) => (d, args.map t.expand) := by
  obtain ⟨shape, hs, -⟩ := h.interned.shape?
  rw [h.interned.expand_eq hs, TypeTable.defAndArgs?, hs]
  cases shape <;> rfl

theorem normal_args (h : t.Normal ty) (hd : t.defAndArgs? ty = some (d, args)) :
    ∀ arg ∈ args, t.Normal arg := by
  unfold TypeTable.defAndArgs? at hd
  split at hd
  · cases hd
    exact nofun
  · next hs =>
    cases hd
    exact h.parts hs
  · cases hd

/-- A type that applies no definition, or one that declares no base, has no base. -/
theorem baseType_eq_none (h : ∀ d args c, q.types.defAndArgs? ty = some (d, args) →
    s.definition? d = some c → c.declaredBase? = none) : (s.baseType ty q).1 = none := by
  unfold SymbolTable.baseType
  rw [ofTypes_apply]
  cases hd : q.types.defAndArgs? ty with
  | none => rfl
  | some pair =>
    obtain ⟨d, args⟩ := pair
    dsimp only
    cases hc : s.definition? d with
    | none => rfl
    | some c =>
      have hno := h d args c hd hc
      unfold Definition.declaredBase? at hno
      dsimp only
      cases hi : c.isInterface with
      | true => rfl
      | false =>
        cases hu : c.unresolvedBase? with
        | some missing => rfl
        | none =>
          rw [hi, hu] at hno
          cases hno

/-- The base of a type is the declared one, with the arguments of the type in place. -/
theorem baseType_eq_some (hd : q.types.defAndArgs? ty = some (d, args))
    (hc : s.definition? d = some c) (hb : c.declaredBase? = some base) :
    (s.baseType ty q).1 = some (Substitution.instantiate ⟨some d, args⟩ base q.types).1 ∧
      (s.baseType ty q).2.types = (Substitution.instantiate ⟨some d, args⟩ base q.types).2 := by
  unfold Definition.declaredBase? at hb
  unfold SymbolTable.baseType
  rw [ofTypes_apply]
  simp only [hd, hc]
  cases hi : c.isInterface with
  | true =>
    rw [hi] at hb
    cases hb
  | false =>
    cases hu : c.unresolvedBase? with
    | some missing =>
      rw [hi, hu] at hb
      cases hb
    | none =>
      rw [hi, hu] at hb
      cases hdecl : c.base? with
      | some declared =>
        rw [hdecl] at hb
        cases hb
        exact ⟨rfl, rfl⟩
      | none =>
        rw [hdecl] at hb
        cases hb
        rw [show Substitution.instantiate _ ((none : Option TypeId).getD .object) q.types = _ from
          Substitution.instantiate_id _ .object q.types]
        exact ⟨rfl, rfl⟩

/-- **The base of a type has the tree that stands above the tree of the type.** -/
theorem expand_baseType (hs : s.NormalBases t) (hq : t ≤ q.types) (hty : q.types.Normal ty) :
    (∀ base ∈ (s.baseType ty q).1, (s.baseType ty q).2.types.Normal base) ∧
      (s.baseType ty q).1.map (s.baseType ty q).2.types.expand =
        s.baseTree t (q.types.expand ty) := by
  unfold SymbolTable.baseTree
  rw [defAndArgs?_expand hty]
  cases hd : q.types.defAndArgs? ty with
  | none =>
    rw [baseType_eq_none fun d args c h => absurd (hd.symm.trans h) nofun]
    exact ⟨nofun, rfl⟩
  | some pair =>
    obtain ⟨d, args⟩ := pair
    simp only [Option.map_some]
    cases hc : s.definition? d with
    | none =>
      rw [baseType_eq_none fun d' args' c' hd' hc' => ?_]
      · exact ⟨nofun, rfl⟩
      · cases hd.symm.trans hd'
        cases hc.symm.trans hc'
    | some c =>
      rw [Option.bind_some]
      cases hb : c.declaredBase? with
      | none =>
        rw [baseType_eq_none fun d' args' c' hd' hc' => ?_]
        · exact ⟨nofun, rfl⟩
        · cases hd.symm.trans hd'
          cases hc.symm.trans hc'
          exact hb
      | some base =>
        obtain ⟨hbase, htypes⟩ := baseType_eq_some hd hc hb
        have hnormal := hs hc hb
        have hargs := normal_args hty hd
        have hbase' : q.types.Normal base := hnormal.mono hq
        rw [hbase, htypes]
        refine ⟨?_, ?_⟩
        · rintro b ⟨⟩
          exact normal_instantiate hargs hbase'
        · rw [Option.map_some, Option.map_some, expand_instantiate hargs hbase',
            paramTree_eq_argTree, hnormal.interned.expand_eq_of_le hq]

/-- **The interfaces of a type have the trees that stand above the tree of the type.** -/
theorem expand_directInterfaces (hs : s.NormalInterfaces t) (hq : t ≤ q.types)
    (hty : q.types.Normal ty) :
    (∀ i ∈ (s.directInterfaces ty q).1, (s.directInterfaces ty q).2.types.Normal i) ∧
      (s.directInterfaces ty q).1.map (s.directInterfaces ty q).2.types.expand =
        s.interfaceTrees t (q.types.expand ty) := by
  unfold SymbolTable.interfaceTrees SymbolTable.directInterfaces
  rw [defAndArgs?_expand hty, ofTypes_apply]
  cases hd : q.types.defAndArgs? ty with
  | none => exact ⟨nofun, rfl⟩
  | some pair =>
    obtain ⟨d, args⟩ := pair
    dsimp only [Option.map_some]
    cases hc : s.definition? d with
    | none => exact ⟨nofun, rfl⟩
    | some c =>
      have hargs := normal_args hty hd
      have hnormal : ∀ i ∈ c.interfaces, q.types.Normal i := fun i hi => (hs hc hi).mono hq
      obtain ⟨hnormal', htrees⟩ := expand_instantiateAll (σ := ⟨some d, args⟩) hargs hnormal
      refine ⟨hnormal', htrees.trans ?_⟩
      refine List.map_congr_left fun i hi => ?_
      rw [paramTree_eq_argTree, (hs hc hi).interned.expand_eq_of_le hq]

/-! ## The walk over bases -/

/-- The types that a question gives, as trees. -/
def QueryM.trees (m : QueryM (List TypeId)) (q : QueryState) : List Ty :=
  (m q).1.map (m q).2.types.expand

/-- Trees of known types stay while the table grows. -/
theorem map_expand_of_le {t' : TypeTable} {tys : List TypeId} (h : ∀ ty ∈ tys, t.Normal ty)
    (hle : t ≤ t') : tys.map t'.expand = tys.map t.expand :=
  List.map_congr_left fun ty hty => (h ty hty).interned.expand_eq_of_le hle

/-- A walk over bases finds one after another, until there is no new one or the limit is reached. -/
theorem expand_climb (hs : s.NormalBases t) {n : Nat} {chain : List TypeId} {last : TypeId}
    (hq : t ≤ q.types) (hc : ∀ x ∈ chain, q.types.Normal x) (hlast : chain.getLast? = some last)
    (hchain : (chain.map q.types.expand).IsChain (s.Derives t))
    (h : Spreading (s.Derives t) start (chain.map q.types.expand)
      (s.baseTree t (q.types.expand last)).toList) :
    (∀ x ∈ (s.climb n chain last q).1, (s.climb n chain last q).2.types.Normal x) ∧
      ((s.climb n chain last q).1.map (s.climb n chain last q).2.types.expand).IsChain
        (s.Derives t) ∧
      ∃ rest, Spreading (s.Derives t) start
        ((s.climb n chain last q).1.map (s.climb n chain last q).2.types.expand) rest ∧
        (s.climb n chain last q).1.length ≤ chain.length + n ∧
        (rest = [] ∨ (s.climb n chain last q).1.length = chain.length + n) := by
  induction n generalizing chain last q with
  | zero => exact ⟨hc, hchain, _, h, le_refl _, .inr rfl⟩
  | succ n ih =>
    have hl : q.types.Normal last := hc last (List.mem_of_getLast? hlast)
    have hle := le_baseType s last q
    have hc' : ∀ x ∈ chain, (s.baseType last q).2.types.Normal x := fun x hx => (hc x hx).mono hle
    obtain ⟨hnormal, htree⟩ := expand_baseType hs hq hl
    rw [← map_expand_of_le hc hle] at hchain h
    cases hb : (s.baseType last q).1 with
    | none =>
      rw [hb] at htree
      rw [← htree] at h
      rw [climb_succ_of_none hb]
      exact ⟨hc', hchain, [], h, Nat.le_add_right _ _, .inl rfl⟩
    | some base =>
      rw [hb] at hnormal htree
      have hbase := hnormal base rfl
      rw [climb_succ_of_some hb]
      rw [← htree] at h
      split
      · next hmem =>
        refine ⟨hc', hchain, [], h.of_mem_iff fun x => ?_, Nat.le_add_right _ _, .inl rfl⟩
        rw [List.append_nil, List.mem_append]
        refine ⟨.inl, fun hx => hx.elim id fun hx => ?_⟩
        obtain rfl := List.mem_singleton.1 hx
        exact List.mem_map_of_mem hmem
      · next hnew =>
        have hnew' : (s.baseType last q).2.types.expand base ∉
            chain.map (s.baseType last q).2.types.expand := by
          rw [List.mem_map]
          rintro ⟨x, hx, hsame⟩
          exact hnew ((hc' x hx).interned.expand_injective hbase.interned hsame ▸ hx)
        have hstep := h.step hnew' fun y => Option.mem_toList
        rw [List.nil_append, ← List.map_singleton, ← List.map_append] at hstep
        have hmore : ((chain ++ [base]).map (s.baseType last q).2.types.expand).IsChain
            (s.Derives t) := by
          rw [List.map_append, List.isChain_append]
          refine ⟨hchain, .singleton _, fun x hx y hy => ?_⟩
          rw [List.getLast?_map, hlast, Option.map_some, hl.interned.expand_eq_of_le hle] at hx
          cases hx
          cases hy
          exact htree.symm
        have hall : ∀ x ∈ chain ++ [base], (s.baseType last q).2.types.Normal x :=
          List.forall_mem_append.2 ⟨hc', List.forall_mem_singleton.2 hbase⟩
        obtain ⟨hnormal', hchain', rest, hrest, hlength, hend⟩ :=
          ih (hq.trans hle) hall List.getLast?_concat hmore hstep
        rw [List.length_append, List.length_singleton, Nat.add_assoc, Nat.add_comm 1 n]
          at hlength hend
        exact ⟨hnormal', hchain', rest, hrest, hlength, hend⟩

/-- **The bases of a type**, each the base of the one before it, up to the limit. -/
theorem upTo_baseChain (hs : s.NormalBases t) (hq : t ≤ q.types) (hty : q.types.Normal ty) :
    (∀ x ∈ (s.baseChain ty q).1, (s.baseChain ty q).2.types.Normal x) ∧
      ((s.baseChain ty).trees q).IsChain (s.Derives t) ∧
      UpTo (maxBaseSteps + 1) (s.Derives t) (q.types.expand ty) ((s.baseChain ty).trees q) := by
  have hstart := (Spreading.init (s.Derives t) (q.types.expand ty)).step List.not_mem_nil
    fun y => Option.mem_toList
  obtain ⟨hnormal, hchain, rest, hrest, hlength, hend⟩ := expand_climb hs (n := maxBaseSteps) hq
    (List.forall_mem_singleton.2 hty) rfl (.singleton _) hstart
  rw [List.length_singleton, Nat.add_comm] at hlength hend
  refine ⟨hnormal, hchain, hrest.upTo ?_ ?_⟩
  · rwa [List.length_map]
  · rwa [List.length_map]

theorem head?_climb {n : Nat} {chain : List TypeId} {last : TypeId} (hne : chain ≠ []) :
    (s.climb n chain last q).1.head? = chain.head? := by
  induction n generalizing chain last q with
  | zero => rfl
  | succ n ih =>
    cases hb : (s.baseType last q).1 with
    | none => rw [climb_succ_of_none hb]
    | some base =>
      rw [climb_succ_of_some hb]
      split
      · rfl
      · rw [ih (List.append_ne_nil_of_left_ne_nil hne _), List.head?_append_of_ne_nil _ hne]

/-- The bases of a type begin with the type. -/
theorem head?_baseChain (s : SymbolTable) (hty : q.types.Normal ty) :
    ((s.baseChain ty).trees q).head? = some (q.types.expand ty) := by
  have hfirst : (s.baseChain ty q).1.head? = some ty := head?_climb (List.cons_ne_nil ty [])
  rw [QueryM.trees, List.head?_map, hfirst, Option.map_some,
    hty.interned.expand_eq_of_le (le_baseChain s ty q)]

/-! ## The walk over interfaces -/

/-- What is left out at the front of the waiting ones was found before. -/
theorem mem_map_dropWhile_iff {f : TypeId → Ty} (found waiting : List TypeId) (x : Ty) :
    x ∈ found.map f ++ (waiting.dropWhile (· ∈ found)).map f ↔
      x ∈ found.map f ++ waiting.map f := by
  rw [List.mem_append, List.mem_append]
  constructor
  · exact Or.imp_right fun hx => List.map_subset f (List.dropWhile_sublist _).subset hx
  · rintro (hx | hx)
    · exact .inl hx
    · obtain ⟨y, hy, rfl⟩ := List.mem_map.1 hx
      rw [← List.takeWhile_append_dropWhile (p := (· ∈ found)) (l := waiting)] at hy
      rcases List.mem_append.1 hy with hy | hy
      · have hfound := List.mem_takeWhile_imp hy
        exact .inl (List.mem_map_of_mem (of_decide_eq_true hfound))
      · exact .inr (List.mem_map_of_mem hy)

/-- A walk over interfaces finds what is reached, until nothing waits any more or the limit is
reached. -/
theorem expand_spread (hs : s.NormalInterfaces t) {n : Nat} {found waiting : List TypeId}
    (hq : t ≤ q.types) (hf : ∀ x ∈ found, q.types.Normal x) (hw : ∀ x ∈ waiting, q.types.Normal x)
    (h : Spreading (s.Extends t) start (found.map q.types.expand) (waiting.map q.types.expand)) :
    (∀ x ∈ (s.spread n found waiting q).1, (s.spread n found waiting q).2.types.Normal x) ∧
      ∃ rest, Spreading (s.Extends t) start
        ((s.spread n found waiting q).1.map (s.spread n found waiting q).2.types.expand) rest ∧
        (s.spread n found waiting q).1.length ≤ found.length + n ∧
        (rest = [] ∨ (s.spread n found waiting q).1.length = found.length + n) := by
  induction n generalizing found waiting q with
  | zero => exact ⟨hf, _, h, le_refl _, .inr rfl⟩
  | succ n ih =>
    have hleft := h.of_mem_iff (mem_map_dropWhile_iff (f := q.types.expand) found waiting)
    unfold SymbolTable.spread
    cases hd : waiting.dropWhile (· ∈ found) with
    | nil =>
      rw [hd] at hleft
      exact ⟨hf, [], hleft, Nat.le_add_right _ _, .inl rfl⟩
    | cons ty waiting' =>
      have hw' : ∀ x ∈ ty :: waiting', q.types.Normal x := by
        rw [← hd]
        exact fun x hx => hw x ((List.dropWhile_sublist _).subset hx)
      rw [List.forall_mem_cons] at hw'
      rw [hd] at hleft
      have hnew : ty ∉ found := by
        have hhead := List.head?_dropWhile_not (p := (· ∈ found)) waiting
        rw [hd] at hhead
        exact of_decide_eq_false hhead
      have hnew' : q.types.expand ty ∉ found.map q.types.expand := by
        rw [List.mem_map]
        rintro ⟨x, hx, htree⟩
        exact hnew ((hf x hx).interned.expand_injective hw'.1.interned htree ▸ hx)
      have hle := le_directInterfaces s ty q
      obtain ⟨hnormal, htrees⟩ := expand_directInterfaces hs hq hw'.1
      have hf' : ∀ x ∈ found ++ [ty], q.types.Normal x :=
        List.forall_mem_append.2 ⟨hf, List.forall_mem_singleton.2 hw'.1⟩
      have hstep := hleft.step hnew' fun y => Iff.rfl
      rw [← htrees, ← List.map_singleton, ← List.map_append, ← map_expand_of_le hf' hle,
        ← map_expand_of_le hw'.2 hle, ← List.map_append] at hstep
      have hwaiting : ∀ x ∈ waiting' ++ (s.directInterfaces ty q).1,
          (s.directInterfaces ty q).2.types.Normal x :=
        List.forall_mem_append.2 ⟨fun x hx => (hw'.2 x hx).mono hle, hnormal⟩
      obtain ⟨hall, rest, hrest, hlength, hend⟩ :=
        ih (hq.trans hle) (fun x hx => (hf' x hx).mono hle) hwaiting hstep
      rw [List.length_append, List.length_singleton, Nat.add_assoc, Nat.add_comm 1 n]
        at hlength hend
      exact ⟨hall, rest, hrest, hlength, hend⟩

/-- **The interfaces of a type**, up to the limit. -/
theorem upTo_interfaceClosure (hs : s.NormalInterfaces t) (hq : t ≤ q.types)
    (hty : q.types.Normal ty) :
    (∀ x ∈ (s.interfaceClosure ty q).1, (s.interfaceClosure ty q).2.types.Normal x) ∧
      UpTo (maxBaseSteps + 1) (s.Extends t) (q.types.expand ty)
        ((s.interfaceClosure ty).trees q) := by
  obtain ⟨hnormal, rest, hrest, hlength, hend⟩ := expand_spread hs (n := maxBaseSteps + 1) hq
    (List.forall_mem_nil _) (List.forall_mem_singleton.2 hty) (.init (s.Extends t) _)
  rw [List.length_nil, Nat.zero_add] at hlength hend
  refine ⟨hnormal, hrest.upTo ?_ ?_⟩
  · rwa [List.length_map]
  · rwa [List.length_map]

theorem head?_spread {n : Nat} {found waiting : List TypeId} (hne : found ≠ []) :
    (s.spread n found waiting q).1.head? = found.head? := by
  induction n generalizing found waiting q with
  | zero => rfl
  | succ n ih =>
    unfold SymbolTable.spread
    cases waiting.dropWhile (· ∈ found) with
    | nil => rfl
    | cons ty waiting' =>
      dsimp only
      rw [bind_apply, ih (List.append_ne_nil_of_left_ne_nil hne _),
        List.head?_append_of_ne_nil _ hne]

/-- The interfaces of a type begin with the type. -/
theorem head?_interfaceClosure (s : SymbolTable) (hty : q.types.Normal ty) :
    ((s.interfaceClosure ty).trees q).head? = some (q.types.expand ty) := by
  have hfirst : (s.interfaceClosure ty q).1.head? = some ty :=
    head?_spread (List.cons_ne_nil ty [])
  rw [QueryM.trees, List.head?_map, hfirst, Option.map_some,
    hty.interned.expand_eq_of_le (le_interfaceClosure s ty q)]

/-! ## Relations -/

section Relations

variable {a b : TypeId}

/-- What one of some types has to be, to be the same as a target, is told by their trees. -/
theorem any_areIdentical_iff {tys : List TypeId} (h : ∀ x ∈ tys, t.Normal x) (hb : t.Normal b)
    (strictness : Strictness) : tys.any (t.areIdentical strictness · b) = true ↔
      ∃ x ∈ tys.map t.expand, strictness.Same x (t.expand b) := by
  simp only [List.any_eq_true, List.mem_map, exists_exists_and_eq_and]
  refine exists_congr fun x => and_congr_right fun hx => ?_
  exact (h x hx).areIdentical_iff_same hb strictness

theorem derivesFrom_iff_mem (hs : s.NormalBases t) (hq : t ≤ q.types) (ha : q.types.Normal a)
    (hb : q.types.Normal b) (strictness : Strictness) :
    (s.derivesFrom strictness a b q).1 = true ↔
      ∃ x ∈ (s.baseChain (q.types.strip a)).trees q, strictness.Same x (q.types.expand b) := by
  have hrun : (s.derivesFrom strictness a b q).1 = (s.baseChain (q.types.strip a) q).1.any
      ((s.baseChain (q.types.strip a) q).2.types.areIdentical strictness · b) := rfl
  have hle := le_baseChain s (q.types.strip a) q
  rw [hrun, any_areIdentical_iff (upTo_baseChain hs hq ha.strip.1).1 (hb.mono hle),
    hb.interned.expand_eq_of_le hle]
  rfl

/-- **A type derives from what is the same as one of its bases**, if they are within the limit. -/
theorem derivesFrom_iff_ancestor (hs : s.NormalBases t) (hq : t ≤ q.types)
    (ha : q.types.Normal a) (hb : q.types.Normal b)
    (hlimit : WithinLimit (s.Derives t) (q.types.expand (q.types.strip a)))
    (strictness : Strictness) :
    (s.derivesFrom strictness a b q).1 = true ↔
      ∃ x, s.Ancestor t (q.types.expand (q.types.strip a)) x ∧
        strictness.Same x (q.types.expand b) := by
  rw [derivesFrom_iff_mem hs hq ha hb]
  have hall := (upTo_baseChain hs hq ha.strip.1).2.2
  exact exists_congr fun x => and_congr_left fun _ => hall.mem_iff hlimit

/-- A question whose answers do not depend on the state, asked for one type after another. -/
theorem anyM_eq_true_iff {p : TypeId → QueryM Bool} {P : TypeId → Prop} {xs : List TypeId}
    (hp : ∀ x ∈ xs, ∀ q' : QueryState, q.types ≤ q'.types →
      q'.types ≤ (p x q').2.types ∧ ((p x q').1 = true ↔ P x)) :
    (xs.anyM p q).1 = true ↔ ∃ x ∈ xs, P x := by
  induction xs generalizing q with
  | nil => exact ⟨nofun, nofun⟩
  | cons x xs ih =>
    rw [List.forall_mem_cons] at hp
    obtain ⟨hle, hx⟩ := hp.1 q (le_refl _)
    rw [List.anyM_cons, bind_apply, List.exists_mem_cons_iff, ← hx]
    cases hyes : (p x q).1 with
    | true => exact ⟨fun _ => .inl rfl, fun _ => rfl⟩
    | false =>
      rw [or_iff_right Bool.false_ne_true]
      exact ih fun y hy q' hq' => hp.2 y hy q' (hle.trans hq')

/-- **A type implements what is the same as an interface that one of its bases reaches**, if all of
them are within the limits. -/
theorem implements_iff_reaches (hs : s.NormalBases t) (hs' : s.NormalInterfaces t)
    (hq : t ≤ q.types) (ha : q.types.Normal a) (hb : q.types.Normal b)
    (hlimit : WithinLimit (s.Derives t) (q.types.expand (q.types.strip a)))
    (hlimits : ∀ x, s.Ancestor t (q.types.expand (q.types.strip a)) x →
      WithinLimit (s.Extends t) x) :
    (s.implements a b q).1 = true ↔
      ∃ x, s.Ancestor t (q.types.expand (q.types.strip a)) x ∧
        ∃ y, s.Reaches t x y ∧ Strictness.ignoreNull.Same y (q.types.expand b) := by
  let reaches : TypeId → QueryM Bool := fun base => do
    let closure ← s.interfaceClosure base
    let types ← QueryM.types
    return closure.any (types.areIdentical .ignoreNull · b)
  have hrun : (s.implements a b q).1 = ((s.baseChain (q.types.strip a) q).1.anyM reaches
      (s.baseChain (q.types.strip a) q).2).1 := rfl
  have hle := le_baseChain s (q.types.strip a) q
  obtain ⟨hnormal, -, hall⟩ := upTo_baseChain hs hq ha.strip.1
  have hancestor := fun x => hall.mem_iff (x := x) hlimit
  rw [QueryM.trees] at hancestor
  generalize s.baseChain (q.types.strip a) q = chain at hrun hle hnormal hancestor
  have hreaches : ∀ x ∈ chain.1, ∀ q' : QueryState, chain.2.types ≤ q'.types →
      q'.types ≤ (reaches x q').2.types ∧ ((reaches x q').1 = true ↔
        ∃ y, s.Reaches t (chain.2.types.expand x) y ∧
          Strictness.ignoreNull.Same y (q.types.expand b)) := by
    intro x hx q' hq'
    have hle' := le_interfaceClosure s x q'
    have hx' := hnormal x hx
    obtain ⟨hclosure, hfound⟩ := upTo_interfaceClosure hs' (hq.trans (hle.trans hq')) (hx'.mono hq')
    have hwithin := hlimits _ ((hancestor _).1 (List.mem_map_of_mem hx))
    rw [hx'.interned.expand_eq_of_le hq'] at hfound
    refine ⟨hle', ?_⟩
    have hstep : (reaches x q').1 = (s.interfaceClosure x q').1.any
        ((s.interfaceClosure x q').2.types.areIdentical .ignoreNull · b) := rfl
    have hgrown := hle.trans (hq'.trans hle')
    rw [hstep, any_areIdentical_iff hclosure (hb.mono hgrown), hb.interned.expand_eq_of_le hgrown]
    exact exists_congr fun y => and_congr_left fun _ => hfound.mem_iff hwithin
  rw [hrun, anyM_eq_true_iff hreaches]
  constructor
  · rintro ⟨x, hx, hy⟩
    exact ⟨_, (hancestor _).1 (List.mem_map_of_mem hx), hy⟩
  · rintro ⟨x, hx, hy⟩
    obtain ⟨base, hbase, rfl⟩ := List.mem_map.1 ((hancestor x).2 hx)
    exact ⟨base, hbase, hy⟩

end Relations

end Upward

end UpdateExpr
