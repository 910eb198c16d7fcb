import UpdateExpr.Proofs.Symbol.Hiding

/-!
# Methods without parameters

Two methods of a class have the same signature if both have neither parameters nor type parameters.
So of all levels that declare such methods under a name, only the first one counts: it hides those
below it, unless a field or property hides it. What lookup finds of them is declared there. That the
methods of one level do not hide each other is the only reason why there may be several.

## Main definitions

* `Declaration.Nullary`, `SymbolTable.isNullary`: a method without parameters and type parameters
* `Declaration.FirstNullary`: the first level that declares such a method, if it is reached
* `SymbolTable.ClassCensus`: all that the levels of a class declare under a name

## Main results

* `Declaration.kept_iff_firstNullary`: such a method is kept exactly on that level
* `exists_classCensus`: lookup in a class finds the best of what is kept
* `Lookup.BestOf.filter_isNullary`, `Lookup.BestOf.usable_eq`: lookup finds such methods of that
  level only
-/

namespace UpdateExpr

/-! ## The level that counts -/

namespace Declaration

/-- A method without parameters and without type parameters. -/
def Nullary (d : Declaration) : Prop :=
  d.member.isMethod = true ∧ d.member.arity = 0 ∧ d.member.parameters = []

instance (d : Declaration) : Decidable d.Nullary :=
  inferInstanceAs (Decidable (_ ∧ _))

/-- The first level that declares a method without parameters, if no field or property on a level
above it ends the walk before. -/
structure FirstNullary (ds : List Declaration) (n : Nat) : Prop where
  declares : ∃ d ∈ ds, d.level = n ∧ d.Nullary
  first : ∀ d ∈ above ds n, ¬ d.Nullary
  reached : ∀ d ∈ above ds n, ¬ Seals ds d

variable {ds : List Declaration} {d e : Declaration} {m n : Nat}

/-- There is one such level at most. -/
theorem FirstNullary.unique (hm : FirstNullary ds m) (hn : FirstNullary ds n) : m = n := by
  have hle : ∀ {m n}, FirstNullary ds m → FirstNullary ds n → n ≤ m := by
    intro m n hm hn
    obtain ⟨d, hd, rfl, hnullary⟩ := hm.declares
    exact Nat.le_of_not_lt fun hlt => hn.first d (mem_above.2 ⟨hd, hlt⟩) hnullary
  exact le_antisymm (hle hn hm) (hle hm hn)

/-- The declared parameters and the instantiated ones are of one number. -/
def Instantiated (d : Declaration) : Prop :=
  d.candidate.params.length = d.member.parameters.length

theorem Instantiated.params_eq_nil_iff (h : d.Instantiated) :
    d.candidate.params = [] ↔ d.member.parameters = [] := by
  rw [← List.length_eq_zero_iff, h, List.length_eq_zero_iff]

theorem signature?_eq_nullary (h : d.Instantiated) :
    d.signature? = some ⟨0, []⟩ ↔ d.Nullary := by
  unfold signature? Nullary
  rw [← h.params_eq_nil_iff]
  cases d.member.isMethod <;> simp

/-- **A method without parameters is kept exactly on the first level that declares one.** -/
theorem kept_iff_firstNullary (hi : ∀ d ∈ ds, d.Instantiated) (hd : d ∈ ds) (hn : d.Nullary) :
    Kept ds d ↔ FirstNullary ds d.level := by
  have hsig : ∀ e ∈ above ds d.level, e.signature? = d.signature? ↔ e.Nullary := by
    intro e he
    rw [(signature?_eq_nullary (hi d hd)).2 hn]
    exact signature?_eq_nullary (hi e (mem_above.1 he).1)
  rw [Kept, if_pos hn.1]
  constructor
  · intro h
    exact ⟨⟨d, hd, rfl, hn⟩, fun e he hen => (h e he).2 ((hsig e he).2 hen), fun e he => (h e he).1⟩
  · intro h e he
    exact ⟨h.reached e he, fun heq => h.first e he ((hsig e he).1 heq)⟩

end Declaration

open Declaration

/-! ## What a census tells of them -/

/-- A candidate is a method without parameters and without type parameters. -/
def SymbolTable.isNullary (s : SymbolTable) (c : Candidate) : Bool :=
  (s.member? c.member).any (fun m => m.isMethod && m.arity == 0) && c.params.isEmpty

section Census

variable {s : SymbolTable} {query : LookupQuery} {q : QueryState} {t t' : TypeTable} {i : Nat}
  {σ : Substitution} {id : MemberId} {ty level : TypeId} {levels : List TypeId} {d : Declaration}
  {ds : List Declaration} {R : Reading}

theorem SymbolTable.LevelCensus.exists_presents (h : s.LevelCensus query R i level ds) :
    ∀ d ∈ ds, ∃ σ id, s.Presents query R i σ id d := by
  cases h with
  | blank _ => exact List.forall_mem_nil _
  | named _ hh =>
    intro d hd
    obtain ⟨id, -, hp⟩ := exists_of_forall₂ hh.flip d hd
    exact ⟨_, id, hp⟩

/-- Each declaration of a census is presented on its level. -/
theorem SymbolTable.Census.exists_presents (h : s.Census query R i levels ds) :
    ∀ d ∈ ds, ∃ σ id, s.Presents query R d.level σ id d := by
  induction h with
  | nil => exact List.forall_mem_nil _
  | cons hh _ ih =>
    refine List.forall_mem_append.2 ⟨fun d hd => ?_, ih⟩
    rw [hh.level_eq d hd]
    exact hh.exists_presents d hd

theorem SymbolTable.Presents.instantiated (h : s.Presents query (.between t t') i σ id d) :
    d.Instantiated := by
  obtain ⟨q, -, -, hparams⟩ := h.params
  rw [Instantiated, ← hparams]
  exact length_instantiateAll _ _

theorem SymbolTable.Census.instantiated (h : s.Census query (.between t t') i levels ds) :
    ∀ d ∈ ds, d.Instantiated := by
  intro d hd
  obtain ⟨σ, id, hp⟩ := h.exists_presents d hd
  exact hp.instantiated

/-- A member that is judged usable has the arity that is looked for, and is a method if it has to
be. -/
theorem admits_of_judge {m : Member} (h : (s.judge query m q).1 = .viable) :
    m.arity = query.arity ∧ (query.invocableOnly = true → m.isMethod = true) := by
  unfold SymbolTable.judge at h
  split at h
  · cases h
  next harity =>
  split at h
  · cases h
  next hmethod => exact ⟨not_not.1 harity, fun hi => by simpa [hi] using hmethod⟩

theorem SymbolTable.Census.isNullary_iff (h : s.Census query (.between t t') i levels ds)
    (hd : d ∈ ds) : s.isNullary d.candidate = true ↔ d.Nullary := by
  obtain ⟨σ, id, hp⟩ := h.exists_presents d hd
  have hfound : s.member? d.candidate.member = some d.member := hp.named ▸ hp.found
  rw [SymbolTable.isNullary, hfound, Bool.and_eq_true, List.isEmpty_iff,
    hp.instantiated.params_eq_nil_iff, Nullary]
  simp [and_assoc]

/-! ## Lookup in a class -/

/-- All that the levels of a class declare under a name, told by answers that were given since the
levels were found; and if all types are interned, by final answers. -/
structure SymbolTable.ClassCensus (s : SymbolTable) (ty : TypeId) (query : LookupQuery)
    (q : QueryState) (t' : TypeTable) (ds : List Declaration) : Prop where
  later : (s.lookup ty query q).2.types ≤ t'
  given : s.Census query (.between (s.baseChain (q.types.strip ty) q).2.types t') 0
    (s.baseChain (q.types.strip ty) q).1 ds
  final : s.AllGood TypeTable.Interned q.types → q.types.Interned ty →
    s.Census query (.final t') 0 (s.baseChain (q.types.strip ty) q).1 ds

/-- Lookup in a class is a walk over its bases, also where a type applies no definition. -/
theorem lookup_eq_ofSightings (hclass : s.isInterface q.types ty = false)
    {chain : List TypeId × QueryState} (hchain : s.baseChain (q.types.strip ty) q = chain) :
    s.lookup ty query q = (.ofSightings (s.sightLevels query true [] chain.1 chain.2).1,
      (s.sightLevels query true [] chain.1 chain.2).2) := by
  cases hd : q.types.defAndArgs? (q.types.strip ty) with
  | some c => exact lookup_apply hclass hd hchain rfl
  | none =>
    rw [baseChain_of_defAndArgs?_eq_none hd] at hchain
    subst hchain
    have hlevel : s.sightLevel query true [] (q.types.strip ty) q = ([], q) := sightLevel_of_none hd
    rw [lookup_of_none hd, sightLevels_cons_apply true [] _ [] hlevel.symm rfl]
    rfl

/-- **Lookup in a class finds the best of what is kept.** -/
theorem exists_classCensus (hclass : s.isInterface q.types ty = false) (query : LookupQuery) :
    ∃ t' ds, s.ClassCensus ty query q t' ds ∧
      (s.lookup ty query q).1.BestOf (ds.filter (Kept ds ·)) := by
  generalize hchain : s.baseChain (q.types.strip ty) q = chain
  have hlookup : s.lookup ty query q = (_, _) := lookup_eq_ofSightings hclass hchain
  generalize hseen : s.sightLevels query true [] chain.1 chain.2 = seen at hlookup
  obtain ⟨t', ds, ht', hc, hsee⟩ :=
    exists_census_sightLevels .start (hseen ▸ le_refl seen.2.types)
  rw [hseen] at ht' hsee
  have hgiven : s.Census query (.between (s.baseChain (q.types.strip ty) q).2.types t') 0
      (s.baseChain (q.types.strip ty) q).1 ds := by
    rw [hchain]
    exact hc
  refine ⟨t', ds, ⟨by rw [hlookup]; exact ht', hgiven, fun hs hty => ?_⟩, ?_⟩
  · have hsteady := steady_baseChain TypeTable.hereditary_interned hs
      (TypeTable.hereditary_interned.strip hty)
    exact hgiven.answers (hs.grow hsteady.grows) hsteady.post
  · rw [hlookup, hsee]
    exact bestOf_ofSightings fun d hd => hc.verdict_ne_absent d (List.mem_filter.1 hd).1

/-- The methods without parameters that a level declares, with a verdict. -/
def nullariesOn (ds : List Declaration) (n : Nat) (v : Verdict) : List Declaration :=
  ds.filter fun d => d.level = n ∧ d.Nullary ∧ d.verdict = v

/-- **What lookup finds of methods without parameters is declared on one level**, the first one that
declares such a method; and there are all of that level that have the verdict of the outcome. -/
theorem Lookup.BestOf.filter_isNullary {l : Lookup} (h : l.BestOf (ds.filter (Kept ds ·)))
    (hc : s.Census query (.between t t') i levels ds) :
    (∀ n, FirstNullary ds n → l.candidates.filter s.isNullary =
      (nullariesOn ds n l.verdict).map (·.candidate)) ∧
    ((∀ n, ¬ FirstNullary ds n) → l.candidates.filter s.isNullary = []) := by
  have hkept : ∀ d ∈ ds, d.Nullary → (Kept ds d ↔ FirstNullary ds d.level) :=
    fun d hd => kept_iff_firstNullary hc.instantiated hd
  have hnullary : ∀ d ∈ ds, (s.isNullary d.candidate = true ↔ d.Nullary) :=
    fun d hd => hc.isNullary_iff hd
  rw [h.candidates, List.filter_map, List.filter_filter, List.filter_filter]
  constructor
  · intro n hn
    refine congrArg (List.map _) (List.filter_congr fun d hd => ?_)
    have hlevel : d.Nullary → (Kept ds d ↔ d.level = n) := fun hd' =>
      (hkept d hd hd').trans ⟨fun hf => hf.unique hn, fun heq => heq ▸ hn⟩
    rw [Bool.eq_iff_iff]
    simp only [Function.comp_apply, Bool.and_eq_true, decide_eq_true_eq, hnullary d hd]
    constructor
    · rintro ⟨⟨hd', hv⟩, hk⟩
      exact ⟨(hlevel hd').1 hk, hd', hv⟩
    · rintro ⟨heq, hd', hv⟩
      exact ⟨⟨hd', hv⟩, (hlevel hd').2 heq⟩
  · intro hno
    rw [List.map_eq_nil_iff, List.filter_eq_nil_iff]
    intro d hd hall
    simp only [Function.comp_apply, Bool.and_eq_true, decide_eq_true_eq, hnullary d hd] at hall
    obtain ⟨⟨hd', -⟩, hk⟩ := hall
    exact hno _ ((hkept d hd hd').1 hk)

/-- Where such a method of that level is usable, the outcome is. -/
theorem Lookup.BestOf.isViable {l : Lookup} {n : Nat} (h : l.BestOf (ds.filter (Kept ds ·)))
    (hc : s.Census query (.between t t') i levels ds) (hn : FirstNullary ds n)
    (hne : nullariesOn ds n .viable ≠ []) : l.isViable = true := by
  obtain ⟨d, hmem⟩ := List.exists_mem_of_ne_nil _ hne
  obtain ⟨hd, hall⟩ := List.mem_filter.1 hmem
  obtain ⟨hlevel, hd', hv⟩ := of_decide_eq_true hall
  subst hlevel
  have hk : Kept ds d := (kept_iff_firstNullary hc.instantiated hd hd').2 hn
  have hle := h.best d (List.mem_filter.2 ⟨hd, decide_eq_true hk⟩)
  rw [hv] at hle
  rw [Lookup.isViable, beq_iff_eq]
  cases hverdict : l.verdict <;> simp [hverdict, Verdict.rank] at hle ⊢

/-- Where methods are looked for that take no type arguments, each usable candidate without
parameters is such a method. -/
theorem Lookup.BestOf.parameterless_eq {l : Lookup} (h : l.BestOf (ds.filter (Kept ds ·)))
    (hc : s.Census query (.between t t') i levels ds) (harity : query.arity = 0)
    (hinvocable : query.invocableOnly = true) (hv : l.isViable = true) :
    l.parameterless = l.candidates.filter s.isNullary := by
  refine List.filter_congr fun c hmem => ?_
  rw [h.candidates] at hmem
  obtain ⟨d, hd, rfl⟩ := List.mem_map.1 hmem
  obtain ⟨hd, hverdict⟩ := List.mem_filter.1 hd
  have hd := (List.mem_filter.1 hd).1
  obtain ⟨σ, id, hp⟩ := hc.exists_presents d hd
  obtain ⟨q, -, -, hjudge⟩ := hp.verdict
  have hview : d.verdict = .viable := (of_decide_eq_true hverdict).trans (eq_of_beq hv)
  obtain ⟨har, hm⟩ := admits_of_judge (hjudge.trans hview)
  rw [Bool.eq_iff_iff, hc.isNullary_iff hd, List.isEmpty_iff,
    (hc.instantiated d hd).params_eq_nil_iff, Nullary]
  simp [har, harity, hm hinvocable]

/-- The usable candidates without parameters are the usable methods without parameters of that
level, and where there is no such level, there are none. -/
theorem Lookup.BestOf.usable_eq {l : Lookup} (h : l.BestOf (ds.filter (Kept ds ·)))
    (hc : s.Census query (.between t t') i levels ds) (harity : query.arity = 0)
    (hinvocable : query.invocableOnly = true) :
    (∀ n, FirstNullary ds n → (if l.isViable then l.parameterless else []) =
      (nullariesOn ds n .viable).map (·.candidate)) ∧
    ((∀ n, ¬ FirstNullary ds n) → (if l.isViable then l.parameterless else []) = []) := by
  obtain ⟨hone, hnone⟩ := h.filter_isNullary hc
  cases hv : l.isViable with
  | true =>
    rw [if_pos rfl, h.parameterless_eq hc harity hinvocable hv]
    rw [show l.verdict = .viable from eq_of_beq hv] at hone
    exact ⟨hone, hnone⟩
  | false =>
    rw [if_neg Bool.false_ne_true]
    refine ⟨fun n hn => ?_, fun _ => rfl⟩
    by_cases hne : nullariesOn ds n .viable = []
    · rw [hne, List.map_nil]
    · rw [h.isViable hc hn hne] at hv
      cases hv

end Census

end UpdateExpr
