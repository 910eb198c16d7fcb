import UpdateExpr.Proofs.Related
import UpdateExpr.Proofs.Symbol.Lookup

/-!
# Which members of a name are seen

Lookup walks the levels of a class with the signatures of the methods above, and stops where it
sees a field or property. What it sees can be said without the walk, of all that the levels declare
under the name:

* a field or property is kept if no level above declares any member of the name;
* a method is kept if no level above declares a field or property that is kept, and none a method of
  the same signature.

The outcome has the best verdict on a kept member, and the kept members with this verdict.

Types are instantiated on the way, and each of these instantiations may add types to the table. So
what a level declares is told by answers that were given at some time between two tables. For
interned types the time is of no matter: such an answer is final.

## Main definitions

* `Given`: a computation gave an answer at some time between two tables
* `Declaration`: a member as its level declares it
* `Declaration.Kept`: a declaration is not hidden by the levels above
* `SymbolTable.Census`: all declarations of a name on some levels
* `Lookup.BestOf`: an outcome is the best of some declarations

## Main results

* `exists_census_sightLevels`: what the walk sees is what is kept
* `SymbolTable.Census.answers`: for interned types, a census is final
* `lookup_bestOf_kept`: the outcome of lookup in a class
-/

namespace UpdateExpr

open HasTypes (types)

/-! ## Answers on the way -/

/-- A computation gave an answer, at some time between two tables. -/
def Given {σ α : Type} [HasTypes σ] (t t' : TypeTable) (m : StateM σ α) (a : α) : Prop :=
  ∃ s : σ, t ≤ types s ∧ types (m s).2 ≤ t' ∧ (m s).1 = a

/-- Which answers to questions count. -/
abbrev Reading :=
  (α : Type) → QueryM α → α → Prop

/-- The answers that were given between two tables. -/
def Reading.between (t t' : TypeTable) : Reading :=
  fun _ m a => Given t t' m a

/-- The answers that are final. -/
def Reading.final (t : TypeTable) : Reading :=
  fun _ m a => Answers m t a

section Given

variable {σ α : Type} [HasTypes σ] {t t' u u' : TypeTable} {m : StateM σ α} {a : α}

theorem Given.widen (h : Given t t' m a) (hu : u ≤ t) (hu' : t' ≤ u') : Given u u' m a := by
  obtain ⟨s, hs, hs', ha⟩ := h
  exact ⟨s, hu.trans hs, hs'.trans hu', ha⟩

/-- An answer of a steady computation is final. -/
theorem Given.answers {good : TypeTable → TypeId → Prop} {post : TypeTable → α → Prop}
    (hk : Known good) (h : Given t t' m a)
    (hm : ∀ s : σ, t ≤ types s → Steady good m m s post) : Answers m t' a := by
  obtain ⟨s, hs, hs', rfl⟩ := h
  exact ((hm s hs).answers hk).mono hs'

/-- What is got from the elements of a list, one after another, starts with what the first one
gives. -/
theorem filterMapM_cons_apply {σ α β : Type} (f : α → StateM σ (Option β)) (x : α) (xs : List α)
    (s : σ) : (x :: xs).filterMapM f s =
      ((f x s).1.toList ++ (xs.filterMapM f (f x s).2).1, (xs.filterMapM f (f x s).2).2) := by
  rw [List.filterMapM_cons]
  show (match (f x s).1 with
    | none => xs.filterMapM f
    | some b => do return b :: (← xs.filterMapM f)) (f x s).2 = _
  cases (f x s).1 <;> rfl

end Given

/-! ## Declarations -/

/-- A member of a name as its level declares it, with the types that it has there. -/
structure Declaration where
  /-- The number of the level, counted from the nearest. -/
  level : Nat
  member : Member
  candidate : Candidate
  verdict : Verdict
  deriving DecidableEq, Repr, Inhabited

namespace Declaration

/-- The signature of a method; none for a field or property. -/
def signature? (d : Declaration) : Option Signature :=
  if d.member.isMethod then some ⟨d.member.arity, d.candidate.params⟩ else none

/-- A declaration as lookup sees it. -/
def sighting (d : Declaration) : Sighting :=
  ⟨d.verdict, d.candidate, d.signature?⟩

/-- The declarations on the levels above a level. -/
def above (ds : List Declaration) (level : Nat) : List Declaration :=
  ds.filter (·.level < level)

/-- A field or property that is kept, which hides all levels below it. -/
def Seals (ds : List Declaration) (d : Declaration) : Prop :=
  d.member.isMethod = false ∧ above ds d.level = []

/-- A declaration is not hidden: a method by no field or property that is kept on a level above, and
by no method of its signature there; a field or property by nothing above. -/
def Kept (ds : List Declaration) (d : Declaration) : Prop :=
  if d.member.isMethod = true then
    ∀ e ∈ above ds d.level, ¬ Seals ds e ∧ e.signature? ≠ d.signature?
  else above ds d.level = []

instance (ds : List Declaration) (d : Declaration) : Decidable (Seals ds d) :=
  inferInstanceAs (Decidable (d.member.isMethod = false ∧ above ds d.level = []))

instance (ds : List Declaration) (d : Declaration) : Decidable (Kept ds d) :=
  inferInstanceAs (Decidable (if d.member.isMethod = true then
    ∀ e ∈ above ds d.level, ¬ Seals ds e ∧ e.signature? ≠ d.signature? else above ds d.level = []))

end Declaration

/-- The definition that a type names, with its type arguments, as a question. -/
def QueryM.definitionOf (ty : TypeId) : QueryM (Option (DefId × List TypeId)) := do
  return (← QueryM.types).defAndArgs? ty

/-- A member is declared on a level where `σ` holds: its types are instantiated by `σ`, and the
verdict on it is that of the query. -/
structure SymbolTable.Presents (s : SymbolTable) (query : LookupQuery) (R : Reading) (i : Nat)
    (σ : Substitution) (id : MemberId) (d : Declaration) : Prop where
  onLevel : d.level = i
  named : d.candidate.member = id
  found : s.member? id = some d.member
  params : R _ (liftM (σ.instantiateAll d.member.parameters)) d.candidate.params
  valueType : R _ (liftM (σ.instantiate d.member.valueType)) d.candidate.ty
  verdict : R _ (s.judge query d.member) d.verdict

/-- The declarations of a name on one level, in the order of declaration. A level that names no
definition has none. -/
inductive SymbolTable.LevelCensus (s : SymbolTable) (query : LookupQuery) (R : Reading) (i : Nat)
    (level : TypeId) : List Declaration → Prop
  | blank (hd : R _ (QueryM.definitionOf level) none) : LevelCensus s query R i level []
  | named {d : DefId} {args : List TypeId} {here : List Declaration}
    (hd : R _ (QueryM.definitionOf level) (some (d, args)))
    (hh : List.Forall₂ (s.Presents query R i ⟨some d, args⟩) (s.membersNamed d query.name) here) :
    LevelCensus s query R i level here

/-- All declarations of a name on some levels, level by level. -/
inductive SymbolTable.Census (s : SymbolTable) (query : LookupQuery) (R : Reading) :
    Nat → List TypeId → List Declaration → Prop
  | nil {i : Nat} : Census s query R i [] []
  | cons {i : Nat} {level : TypeId} {below : List TypeId} {here rest : List Declaration}
    (hh : s.LevelCensus query R i level here) (hr : Census s query R (i + 1) below rest) :
    Census s query R i (level :: below) (here ++ rest)

/-- An outcome is the best of some declarations: it has the best verdict on one of them, and the
declarations with this verdict, in order. -/
structure Lookup.BestOf (l : Lookup) (ds : List Declaration) : Prop where
  absent : l.verdict = .absent ↔ ds = []
  best : ∀ d ∈ ds, d.verdict.rank ≤ l.verdict.rank
  reached : ds ≠ [] → ∃ d ∈ ds, d.verdict = l.verdict
  candidates : l.candidates = (ds.filter (·.verdict = l.verdict)).map (·.candidate)

section Census

variable {s : SymbolTable} {query : LookupQuery} {q : QueryState} {t t' u u' : TypeTable}
  {i : Nat} {level : TypeId} {levels : List TypeId} {σ : Substitution} {id : MemberId}
  {d e : Declaration} {ds : List Declaration} {R R' : Reading}

/-! ## What a census tells -/

theorem SymbolTable.Presents.map (h : s.Presents query R i σ id d)
    (hp : R _ (liftM (σ.instantiateAll d.member.parameters)) d.candidate.params →
      R' _ (liftM (σ.instantiateAll d.member.parameters)) d.candidate.params)
    (ht : R _ (liftM (σ.instantiate d.member.valueType)) d.candidate.ty →
      R' _ (liftM (σ.instantiate d.member.valueType)) d.candidate.ty)
    (hv : R _ (s.judge query d.member) d.verdict → R' _ (s.judge query d.member) d.verdict) :
    s.Presents query R' i σ id d :=
  ⟨h.onLevel, h.named, h.found, hp h.params, ht h.valueType, hv h.verdict⟩

theorem SymbolTable.Presents.widen (h : s.Presents query (.between t t') i σ id d) (hu : u ≤ t)
    (hu' : t' ≤ u') : s.Presents query (.between u u') i σ id d :=
  h.map (·.widen hu hu') (·.widen hu hu') (·.widen hu hu')

theorem SymbolTable.LevelCensus.widen (h : s.LevelCensus query (.between t t') i level ds)
    (hu : u ≤ t) (hu' : t' ≤ u') : s.LevelCensus query (.between u u') i level ds := by
  cases h with
  | blank hd => exact .blank (hd.widen hu hu')
  | named hd hh => exact .named (hd.widen hu hu') (hh.imp fun _ _ hp => hp.widen hu hu')

theorem SymbolTable.Census.widen (h : s.Census query (.between t t') i levels ds) (hu : u ≤ t)
    (hu' : t' ≤ u') : s.Census query (.between u u') i levels ds := by
  induction h with
  | nil => exact .nil
  | cons hh _ ih => exact .cons (hh.widen hu hu') ih

theorem SymbolTable.LevelCensus.level_eq (h : s.LevelCensus query R i level ds) :
    ∀ d ∈ ds, d.level = i := by
  cases h with
  | blank _ => exact List.forall_mem_nil _
  | named _ hh =>
    intro d hd
    obtain ⟨id, -, hp⟩ := exists_of_forall₂ hh.flip d hd
    exact hp.onLevel

theorem SymbolTable.Census.le_level (h : s.Census query R i levels ds) : ∀ d ∈ ds, i ≤ d.level := by
  induction h with
  | nil => exact List.forall_mem_nil _
  | cons hh _ ih =>
    refine List.forall_mem_append.2 ⟨fun d hd => (hh.level_eq d hd).ge, fun d hd => ?_⟩
    exact (Nat.le_succ _).trans (ih d hd)

/-! ## One member -/

theorem le_judge {m : Member} (hn : m.name = query.name) (q : QueryState) :
    q.types ≤ (s.judge query m q).2.types :=
  (steady_judge TypeTable.hereditary_true (fun _ _ => trivial) hn).grows.le

/-- A member as it is found when its types and the verdict on it are asked for in turn, from a state
on, after its parameters are known. -/
def SymbolTable.declaration (s : SymbolTable) (query : LookupQuery) (i : Nat) (σ : Substitution)
    (id : MemberId) (m : Member) (params : List TypeId) (q : QueryState) : Declaration where
  level := i
  member := m
  candidate := ⟨id, (σ.instantiate m.valueType (s.judge query m q).2.types).1, params⟩
  verdict := (s.judge query m q).1

/-- Where its types and the verdict on it are asked for, a member is presented. -/
theorem presents_declaration {m : Member} (i : Nat) (q₁ : QueryState) (hm : s.member? id = some m)
    (hn : m.name = query.name) (hp : (σ.instantiateAll m.parameters q.types).2 ≤ q₁.types)
    (ht : (σ.instantiate m.valueType (s.judge query m q₁).2.types).2 ≤ t) :
    s.Presents query (.between q.types t) i σ id
      (s.declaration query i σ id m (σ.instantiateAll m.parameters q.types).1 q₁) := by
  have hq₁ : q.types ≤ q₁.types := (le_instantiateAll σ _ _).trans hp
  have hv : (s.judge query m q₁).2.types ≤ t := (le_instantiate σ _ _).trans ht
  have hq₁t : q₁.types ≤ t := (le_judge hn q₁).trans hv
  exact {
    onLevel := rfl
    named := rfl
    found := hm
    params := ⟨q, le_refl _, hp.trans hq₁t, rfl⟩
    valueType := ⟨(s.judge query m q₁).2, hq₁.trans (le_judge hn q₁), ht, rfl⟩
    verdict := ⟨q₁, hq₁, hv, rfl⟩ }

/-- A member is looked at up to its parameters, and on to its type unless it is hidden. -/
theorem sight_apply {m : Member} (i : Nat) (inClass : Bool) (above : List Signature)
    (hm : s.member? id = some m) {q₁ : QueryState}
    (hq₁ : q₁ = { q with types := (σ.instantiateAll m.parameters q.types).2 })
    (hd : d = s.declaration query i σ id m (σ.instantiateAll m.parameters q.types).1 q₁) :
    s.sight query inClass above σ id q =
      if SymbolTable.isHidden inClass above d.signature? then (none, q₁)
      else (some d.sighting, { (s.judge query m q₁).2 with
        types := (σ.instantiate m.valueType (s.judge query m q₁).2.types).2 }) := by
  have hrun : s.sight query inClass above σ id q =
      (if SymbolTable.isHidden inClass above d.signature? then pure none else do
        let verdict ← s.judge query m
        let ty ← σ.instantiate m.valueType
        return some ⟨verdict, ⟨id, ty, (σ.instantiateAll m.parameters q.types).1⟩, d.signature?⟩ :
          QueryM (Option Sighting)) q₁ := by
    unfold SymbolTable.sight
    rw [hm, hd, hq₁]
    rfl
  rw [hrun, hd]
  split <;> rfl

theorem le_sight {m : Member} (inClass : Bool) (above : List Signature) (hm : s.member? id = some m)
    (hn : m.name = query.name) (q : QueryState) :
    q.types ≤ (s.sight query inClass above σ id q).2.types := by
  rw [sight_apply 0 inClass above hm rfl rfl]
  have hp : q.types ≤ (σ.instantiateAll m.parameters q.types).2 := le_instantiateAll σ _ _
  split
  · exact hp
  · have hv := le_judge (s := s) hn { q with types := (σ.instantiateAll m.parameters q.types).2 }
    exact hp.trans (hv.trans (le_instantiate σ _ _))

theorem le_filterMapM_sight (inClass : Bool) (σ : Substitution) (above : List Signature)
    {ids : List MemberId} (hids : ∀ id ∈ ids, ∃ m, s.member? id = some m ∧ m.name = query.name)
    (q : QueryState) : q.types ≤ (ids.filterMapM (s.sight query inClass above σ) q).2.types := by
  induction ids generalizing q with
  | nil => exact le_refl _
  | cons id ids ih =>
    rw [List.forall_mem_cons] at hids
    obtain ⟨⟨m, hm, hn⟩, hids⟩ := hids
    rw [filterMapM_cons_apply]
    exact (le_sight inClass above hm hn q).trans (ih hids _)

theorem le_sightLevel (inClass : Bool) (above : List Signature) (level : TypeId) (q : QueryState) :
    q.types ≤ (s.sightLevel query inClass above level q).2.types :=
  (steady_sightLevel TypeTable.hereditary_true (fun _ _ => trivial) trivial inClass above).grows.le

/-- **A member is presented, and it is seen unless it is hidden.** -/
theorem exists_presents {m : Member} (i : Nat) (above : List Signature)
    (hm : s.member? id = some m) (hn : m.name = query.name)
    (ht : (s.sight query true above σ id q).2.types ≤ t) :
    ∃ t' d, t ≤ t' ∧ s.Presents query (.between q.types t') i σ id d ∧
      (s.sight query true above σ id q).1 =
        if SymbolTable.isHidden true above d.signature? then none else some d.sighting := by
  rw [sight_apply i true above hm rfl rfl] at ht ⊢
  split at ht
  · next hh =>
    -- A hidden member is not asked about further; this is made up for on the table in the end.
    refine ⟨_, _, ?_, presents_declaration i { types := t } hm hn ht (le_refl _), ?_⟩
    · exact (le_judge hn { types := t }).trans (le_instantiate σ _ _)
    · rw [if_pos hh]
      exact (if_pos hh).symm
  · next hh =>
    refine ⟨t, _, le_refl t, presents_declaration i _ hm hn (le_refl _) ht, ?_⟩
    rw [if_neg hh]
    exact (if_neg hh).symm

/-- What the signatures of the methods above do not hide of some declarations. -/
def seenOf (above : List Signature) (ds : List Declaration) : List Declaration :=
  ds.filter fun d => !SymbolTable.isHidden true above d.signature?

theorem mem_seenOf {above : List Signature} :
    d ∈ seenOf above ds ↔ d ∈ ds ∧ SymbolTable.isHidden true above d.signature? = false := by
  simp [seenOf]

theorem exists_presents_all (i : Nat) (above : List Signature) {ids : List MemberId}
    (hids : ∀ id ∈ ids, ∃ m, s.member? id = some m ∧ m.name = query.name)
    (ht : (ids.filterMapM (s.sight query true above σ) q).2.types ≤ t) :
    ∃ t' here, t ≤ t' ∧ List.Forall₂ (s.Presents query (.between q.types t') i σ) ids here ∧
      (ids.filterMapM (s.sight query true above σ) q).1 =
        (seenOf above here).map Declaration.sighting := by
  induction ids generalizing q with
  | nil => exact ⟨t, [], le_refl t, .nil, rfl⟩
  | cons id ids ih =>
    rw [List.forall_mem_cons] at hids
    obtain ⟨⟨m, hm, hn⟩, hids⟩ := hids
    rw [filterMapM_cons_apply] at ht ⊢
    -- The members that follow come first here: what they need may come after what `id` needs.
    obtain ⟨t₁, here, ht₁, hhere, hseen⟩ := ih hids ht
    have hrest := le_filterMapM_sight true σ above hids (s.sight query true above σ id q).2
    obtain ⟨t₂, d, ht₂, hd, hfirst⟩ := exists_presents i above hm hn ((hrest.trans ht).trans ht₁)
    refine ⟨t₂, d :: here, ht₁.trans ht₂, .cons hd ?_, ?_⟩
    · exact hhere.imp fun _ _ hp => hp.widen (le_sight true above hm hn q) ht₂
    · dsimp only
      rw [hseen, hfirst, seenOf, seenOf, List.filter_cons]
      cases SymbolTable.isHidden true above d.signature? <;> rfl

theorem member_of_mem_membersNamed {c : DefId} {name : String} (h : id ∈ s.membersNamed c name) :
    ∃ m, s.member? id = some m ∧ m.name = name := by
  unfold SymbolTable.membersNamed at h
  split at h
  · have hany := (List.mem_filter.1 h).2
    obtain ⟨m, hm, hname⟩ := Option.any_eq_true _ _ |>.1 hany
    exact ⟨m, hm, eq_of_beq hname⟩
  · cases h

/-! ## Levels -/

theorem instantiateAll_ofType {c : DefId} {args : List TypeId}
    (h : t.defAndArgs? level = some (c, args)) (tys : List TypeId) :
    (Substitution.ofType t level).instantiateAll tys =
      Substitution.instantiateAll ⟨some c, args⟩ tys := by
  induction tys with
  | nil => rfl
  | cons ty tys ih => rw [Substitution.instantiateAll, Substitution.instantiateAll, ih,
      instantiate_ofType h]

theorem SymbolTable.Presents.ofType {c : DefId} {args : List TypeId}
    (h : q.types.defAndArgs? level = some (c, args))
    (hp : s.Presents query R i (.ofType q.types level) id d) :
    s.Presents query R i ⟨some c, args⟩ id d := by
  obtain ⟨hl, hn, hf, hpar, hty, hv⟩ := hp
  rw [instantiateAll_ofType h] at hpar
  rw [instantiate_ofType h] at hty
  exact ⟨hl, hn, hf, hpar, hty, hv⟩

theorem sightLevel_of_none {inClass : Bool} {above : List Signature} {level : TypeId}
    (h : q.types.defAndArgs? level = none) :
    s.sightLevel query inClass above level q = ([], q) := by
  unfold SymbolTable.sightLevel
  rw [ofTypes_apply]
  simp only [h]
  rfl

theorem sightLevel_of_some {inClass : Bool} {above : List Signature} {level : TypeId} {c : DefId}
    {args : List TypeId} (h : q.types.defAndArgs? level = some (c, args)) :
    s.sightLevel query inClass above level q = (s.membersNamed c query.name).filterMapM
      (s.sight query inClass above (.ofType q.types level)) q := by
  unfold SymbolTable.sightLevel
  rw [ofTypes_apply]
  simp only [h]

/-- **What is seen on a level is what the methods above it do not hide.** -/
theorem exists_levelCensus (i : Nat) (above : List Signature) (level : TypeId)
    (ht : (s.sightLevel query true above level q).2.types ≤ t) :
    ∃ t' here, t ≤ t' ∧ s.LevelCensus query (.between q.types t') i level here ∧
      (s.sightLevel query true above level q).1 =
        (seenOf above here).map Declaration.sighting := by
  cases hc : q.types.defAndArgs? level with
  | none =>
    rw [sightLevel_of_none hc] at ht ⊢
    exact ⟨t, [], le_refl t, .blank ⟨q, le_refl _, ht, hc⟩, rfl⟩
  | some pair =>
    obtain ⟨c, args⟩ := pair
    rw [sightLevel_of_some hc] at ht ⊢
    obtain ⟨t', here, ht', hhere, hseen⟩ :=
      exists_presents_all i above (fun _ => member_of_mem_membersNamed) ht
    have hq : q.types ≤ t' := ((le_filterMapM_sight true _ above
      (fun _ => member_of_mem_membersNamed) q).trans ht).trans ht'
    refine ⟨t', here, ht', .named ⟨q, le_refl _, hq, hc⟩ ?_, hseen⟩
    exact hhere.imp fun _ _ hp => hp.ofType hc

/-- Levels can be asked for their declarations, whether or not lookup comes to them. -/
theorem exists_census (s : SymbolTable) (query : LookupQuery) (i : Nat) (levels : List TypeId)
    (t : TypeTable) :
    ∃ t' ds, t ≤ t' ∧ s.Census query (.between t t') i levels ds := by
  induction levels generalizing i t with
  | nil => exact ⟨t, [], le_refl t, .nil⟩
  | cons level below ih =>
    have hend := le_refl (s.sightLevel query true [] level { types := t }).2.types
    obtain ⟨t₁, here, ht₁, hhere, -⟩ := exists_levelCensus i [] level hend
    have ht : t ≤ t₁ := (le_sightLevel true [] level { types := t }).trans ht₁
    obtain ⟨t₂, rest, ht₂, hrest⟩ := ih (i + 1) t₁
    exact ⟨t₂, here ++ rest, ht.trans ht₂,
      .cons (hhere.widen (le_refl t) ht₂) (hrest.widen ht (le_refl t₂))⟩

/-! ## The walk -/

namespace Declaration

theorem mem_above {n : Nat} : e ∈ above ds n ↔ e ∈ ds ∧ e.level < n := by
  simp [above]

theorem above_append_of_le {below : List Declaration} {n : Nat} (h : ∀ e ∈ below, n ≤ e.level) :
    above (ds ++ below) n = above ds n := by
  have hnone : above below n = [] :=
    List.filter_eq_nil_iff.2 fun e he => by simpa using h e he
  rw [above, List.filter_append, ← above, ← above, hnone, List.append_nil]

theorem above_eq_self {n : Nat} (h : ∀ e ∈ ds, e.level < n) : above ds n = ds :=
  List.filter_eq_self.2 fun e he => by simpa using h e he

theorem signature?_eq_none : d.signature? = none ↔ d.member.isMethod = false := by
  unfold signature?
  cases d.member.isMethod <;> simp

/-- Below a field or property that is kept nothing is kept. -/
theorem not_kept_of_seals (he : e ∈ ds) (hs : Seals ds e) (hlt : e.level < d.level) :
    ¬ Kept ds d := by
  have hmem : e ∈ above ds d.level := mem_above.2 ⟨he, hlt⟩
  unfold Kept
  split
  · intro hall
    exact (hall e hmem).1 hs
  · intro hnil
    rw [hnil] at hmem
    cases hmem

end Declaration

open Declaration

/-- Where the walk has come to a level: of what the levels above declare, no field or property is
kept, and the signatures are those that were collected. -/
structure Walked (i : Nat) (before : List Declaration) (above : List Signature) : Prop where
  below : ∀ e ∈ before, e.level < i
  unsealed : ∀ e ∈ before, ¬ Seals before e
  mem : ∀ g, g ∈ above ↔ ∃ e ∈ before, e.signature? = some g
  nil : above = [] → before = []

section Walked

variable {before here rest : List Declaration} {above : List Signature}

theorem Walked.start : Walked 0 [] [] where
  below := List.forall_mem_nil _
  unsealed := List.forall_mem_nil _
  mem := by simp
  nil _ := rfl

theorem Walked.above_eq (w : Walked i before above) (hrest : ∀ e ∈ rest, i ≤ e.level) :
    Declaration.above (before ++ rest) i = before := by
  rw [above_append_of_le hrest, above_eq_self w.below]

theorem Walked.not_seals (w : Walked i before above) (hrest : ∀ e ∈ rest, i ≤ e.level) :
    ∀ e ∈ before, ¬ Seals (before ++ rest) e := by
  rintro e he ⟨hm, hnil⟩
  rw [above_append_of_le fun e' he' => (w.below e he).le.trans (hrest e' he')] at hnil
  exact w.unsealed e he ⟨hm, hnil⟩

theorem Walked.nil_iff (w : Walked i before above) : before = [] ↔ above = [] := by
  refine ⟨?_, w.nil⟩
  rintro rfl
  exact List.eq_nil_iff_forall_not_mem.2 fun g hg => by simpa using (w.mem g).1 hg

/-- **A declaration on the level is kept if the signatures do not hide it.** -/
theorem Walked.kept_iff (w : Walked i before above) (hrest : ∀ e ∈ rest, i ≤ e.level)
    (hd : d.level = i) :
    Kept (before ++ rest) d ↔ SymbolTable.isHidden true above d.signature? = false := by
  unfold Kept
  rw [hd, w.above_eq hrest]
  cases hm : d.member.isMethod with
  | false =>
    rw [signature?_eq_none.2 hm]
    simp [SymbolTable.isHidden, w.nil_iff]
  | true =>
    obtain ⟨g, hg⟩ : ∃ g, d.signature? = some g := by
      rw [← Option.ne_none_iff_exists', Ne, signature?_eq_none, hm]
      exact Bool.noConfusion
    rw [if_pos rfl, hg]
    have hall : (∀ e ∈ before, ¬ Seals (before ++ rest) e ∧ e.signature? ≠ some g) ↔ g ∉ above := by
      rw [w.mem g]
      constructor
      · rintro h ⟨e, he, heg⟩
        exact (h e he).2 heg
      · intro h e he
        exact ⟨w.not_seals hrest e he, fun heg => h ⟨e, he, heg⟩⟩
    rw [hall]
    simp [SymbolTable.isHidden]

/-- The walk goes on below a level where it saw methods only. -/
theorem Walked.next (w : Walked i before above) (hl : ∀ d ∈ here, d.level = i)
    (hm : ∀ d ∈ seenOf above here, d.member.isMethod = true) :
    Walked (i + 1) (before ++ here) (above ++ (seenOf above here).filterMap (·.signature?)) where
  below := by
    refine List.forall_mem_append.2 ⟨fun e he => ?_, fun e he => ?_⟩
    · exact (w.below e he).trans (Nat.lt_succ_self i)
    · exact (hl e he).trans_lt (Nat.lt_succ_self i)
  unsealed := by
    refine List.forall_mem_append.2 ⟨w.not_seals fun e he => (hl e he).ge, ?_⟩
    rintro e he ⟨hf, hnil⟩
    rw [hl e he, w.above_eq fun e he => (hl e he).ge] at hnil
    have hseen : e ∈ seenOf above here := by
      rw [mem_seenOf, signature?_eq_none.2 hf, w.nil_iff.1 hnil]
      exact ⟨he, rfl⟩
    rw [hm e hseen] at hf
    cases hf
  mem g := by
    rw [List.mem_append, List.mem_filterMap, w.mem g]
    constructor
    · rintro (⟨e, he, hg⟩ | ⟨e, he, hg⟩)
      · exact ⟨e, List.mem_append_left _ he, hg⟩
      · exact ⟨e, List.mem_append_right _ (mem_seenOf.1 he).1, hg⟩
    · rintro ⟨e, he, hg⟩
      rcases List.mem_append.1 he with he | he
      · exact .inl ⟨e, he, hg⟩
      cases hh : SymbolTable.isHidden true above e.signature? with
      | false => exact .inr ⟨e, mem_seenOf.2 ⟨he, hh⟩, hg⟩
      | true =>
        rw [hg] at hh
        exact .inl ((w.mem g).1 (by simpa [SymbolTable.isHidden] using hh))
  nil hnil := by
    obtain ⟨rfl, hnone⟩ := List.append_eq_nil_iff.1 hnil
    rw [w.nil rfl, List.nil_append]
    refine List.eq_nil_iff_forall_not_mem.2 fun e he => ?_
    have hseen : e ∈ seenOf [] here := by
      refine mem_seenOf.2 ⟨he, ?_⟩
      cases e.signature? <;> rfl
    have hsig := List.filterMap_eq_nil_iff.1 hnone e hseen
    rw [signature?_eq_none, hm e hseen] at hsig
    cases hsig

theorem Walked.filter_kept (w : Walked i before above) (hl : ∀ d ∈ here, d.level = i)
    (hrest : ∀ e ∈ rest, i < e.level) :
    here.filter (Kept (before ++ (here ++ rest)) ·) = seenOf above here := by
  have hle : ∀ e ∈ here ++ rest, i ≤ e.level :=
    List.forall_mem_append.2 ⟨fun e he => (hl e he).ge, fun e he => (hrest e he).le⟩
  refine List.filter_congr fun d hd => ?_
  rw [Bool.eq_iff_iff, decide_eq_true_iff, w.kept_iff hle (hl d hd), Bool.not_eq_true']

/-- Below a level where a field or property was seen, nothing is kept. -/
theorem Walked.filter_kept_eq_nil (w : Walked i before above) (hl : ∀ d ∈ here, d.level = i)
    (hrest : ∀ e ∈ rest, i < e.level) (hseal : ∃ e ∈ seenOf above here, e.signature? = none) :
    rest.filter (Kept (before ++ (here ++ rest)) ·) = [] := by
  obtain ⟨e, he, hsig⟩ := hseal
  obtain ⟨hhere, hh⟩ := mem_seenOf.1 he
  have hle : ∀ e ∈ here ++ rest, i ≤ e.level :=
    List.forall_mem_append.2 ⟨fun e he => (hl e he).ge, fun e he => (hrest e he).le⟩
  have hseals : Seals (before ++ (here ++ rest)) e := by
    refine ⟨signature?_eq_none.1 hsig, ?_⟩
    rw [hl e hhere, w.above_eq hle, w.nil_iff]
    simpa [hsig, SymbolTable.isHidden] using hh
  refine List.filter_eq_nil_iff.2 fun d hd hk => ?_
  have hlt : e.level < d.level := (hl e hhere).trans_lt (hrest d hd)
  exact not_kept_of_seals (by simp [hhere]) hseals hlt (of_decide_eq_true hk)

end Walked

/-! ## The census of the walk -/

theorem le_sightLevels (inClass : Bool) (above : List Signature) (levels : List TypeId)
    (q : QueryState) : q.types ≤ (s.sightLevels query inClass above levels q).2.types :=
  (steady_sightLevels TypeTable.hereditary_true (fun _ _ => trivial) (fun _ _ => trivial) inClass
    above).grows.le

/-- The walk over some levels stops after the first one where it sees a field or property. -/
theorem sightLevels_cons_apply (inClass : Bool) (above : List Signature) (level : TypeId)
    (below : List TypeId) {seen rest : List Sighting × QueryState}
    (hseen : seen = s.sightLevel query inClass above level q)
    (hrest : rest =
      s.sightLevels query inClass (above ++ seen.1.filterMap (·.signature?)) below seen.2) :
    s.sightLevels query inClass above (level :: below) q =
      if seen.1.any (·.signature?.isNone) then seen else (seen.1 ++ rest.1, rest.2) := by
  subst hrest hseen
  show (if (s.sightLevel query inClass above level q).1.any (·.signature?.isNone) then _ else _ :
    QueryM (List Sighting)) _ = _
  split <;> rfl

theorem any_sighting (ds : List Declaration) :
    (ds.map Declaration.sighting).any (·.signature?.isNone) = ds.any (·.signature?.isNone) := by
  rw [List.any_map]
  rfl

theorem filterMap_sighting (ds : List Declaration) :
    (ds.map Declaration.sighting).filterMap (·.signature?) = ds.filterMap (·.signature?) := by
  rw [List.filterMap_map]
  rfl

/-- **What the walk sees is what is kept.** -/
theorem exists_census_sightLevels {before : List Declaration} {above : List Signature}
    (w : Walked i before above) (ht : (s.sightLevels query true above levels q).2.types ≤ t) :
    ∃ t' ds, t ≤ t' ∧ s.Census query (.between q.types t') i levels ds ∧
      (s.sightLevels query true above levels q).1 =
        (ds.filter (Kept (before ++ ds) ·)).map Declaration.sighting := by
  induction levels generalizing i before above q t with
  | nil => exact ⟨t, [], le_refl t, .nil, rfl⟩
  | cons level below ih =>
    rw [sightLevels_cons_apply true above level below rfl rfl] at ht ⊢
    generalize hseen : s.sightLevel query true above level q = seen at ht ⊢
    generalize hrest : s.sightLevels query true _ below seen.2 = rest at ht ⊢
    have hstep : q.types ≤ seen.2.types := by
      rw [← hseen]
      exact le_sightLevel true above level q
    have hseent : seen.2.types ≤ t := by
      split at ht
      · exact ht
      · refine le_trans ?_ ht
        rw [← hrest]
        exact le_sightLevels true _ below seen.2
    obtain ⟨t₁, here, ht₁, hhere, hsee⟩ := exists_levelCensus i above level (hseen ▸ hseent)
    rw [hseen] at hsee
    have hl : ∀ d ∈ here, d.level = i := hhere.level_eq
    rw [hsee, any_sighting] at ht ⊢
    rw [hsee, filterMap_sighting] at hrest
    split at ht
    · next hseal =>
      obtain ⟨t₂, ds, ht₂, hbelow⟩ := exists_census s query (i + 1) below t₁
      have hqt₁ : q.types ≤ t₁ := hstep.trans (hseent.trans ht₁)
      refine ⟨t₂, here ++ ds, ht₁.trans ht₂, .cons (hhere.widen (le_refl _) ht₂)
        (hbelow.widen hqt₁ (le_refl _)), ?_⟩
      rw [if_pos hseal, List.filter_append, w.filter_kept hl hbelow.le_level,
        w.filter_kept_eq_nil hl hbelow.le_level (by simpa using hseal), List.append_nil, hsee]
    · next hseal =>
      have hm : ∀ d ∈ seenOf above here, d.member.isMethod = true := by
        simpa [signature?_eq_none] using hseal
      obtain ⟨t₂, ds, ht₂, hbelow, hsee'⟩ :=
        ih (w.next hl hm) ((congrArg (·.2.types) hrest).trans_le (ht.trans ht₁))
      refine ⟨t₂, here ++ ds, ht₁.trans ht₂, .cons (hhere.widen (le_refl _) ht₂)
        (hbelow.widen hstep (le_refl _)), ?_⟩
      rw [if_neg hseal, List.filter_append, w.filter_kept hl hbelow.le_level, List.map_append]
      rw [← hrest, hsee', List.append_assoc]

/-! ## The outcome -/

theorem judge_ne_absent (s : SymbolTable) (query : LookupQuery) (m : Member) (q : QueryState) :
    (s.judge query m q).1 ≠ .absent := by
  unfold SymbolTable.judge
  split
  · exact nofun
  split
  · exact nofun
  split
  · exact nofun
  show ((if (s.isAccessible m query.asking? q).1 = true then pure .viable else pure .inaccessible :
    QueryM Verdict) _).1 ≠ _
  split <;> exact nofun

theorem SymbolTable.LevelCensus.verdict_ne_absent
    (h : s.LevelCensus query (.between t t') i level ds) : ∀ d ∈ ds, d.verdict ≠ .absent := by
  cases h with
  | blank _ => exact List.forall_mem_nil _
  | named _ hh =>
    intro d hd
    obtain ⟨id, -, hp⟩ := exists_of_forall₂ hh.flip d hd
    obtain ⟨q, -, -, hv⟩ := hp.verdict
    rw [← hv]
    exact judge_ne_absent s query d.member q

theorem SymbolTable.Census.verdict_ne_absent
    (h : s.Census query (.between t t') i levels ds) : ∀ d ∈ ds, d.verdict ≠ .absent := by
  induction h with
  | nil => exact List.forall_mem_nil _
  | cons hh _ ih => exact List.forall_mem_append.2 ⟨hh.verdict_ne_absent, ih⟩

theorem rank_le_foldl_best (v : Verdict) (vs : List Verdict) :
    v.rank ≤ (vs.foldl Verdict.best v).rank ∧
      ∀ w ∈ vs, w.rank ≤ (vs.foldl Verdict.best v).rank := by
  induction vs generalizing v with
  | nil => exact ⟨le_refl _, nofun⟩
  | cons w vs ih =>
    obtain ⟨hv, hvs⟩ := ih (v.best w)
    rw [Verdict.rank_best] at hv
    exact ⟨(le_max_left _ _).trans hv, List.forall_mem_cons.2 ⟨(le_max_right _ _).trans hv, hvs⟩⟩

/-- **The outcome of some declarations is the best of them.** -/
theorem bestOf_ofSightings (h : ∀ d ∈ ds, d.verdict ≠ .absent) :
    (Lookup.ofSightings (ds.map Declaration.sighting)).BestOf ds := by
  have hbest : ∀ d ∈ ds, d.verdict.rank ≤
      (Lookup.ofSightings (ds.map Declaration.sighting)).verdict.rank := by
    intro d hd
    exact (rank_le_foldl_best .absent _).2 _ (List.mem_map_of_mem (List.mem_map_of_mem hd))
  have hreached : ds ≠ [] →
      ∃ d ∈ ds, d.verdict = (Lookup.ofSightings (ds.map Declaration.sighting)).verdict := by
    intro hne
    rcases foldl_best_cases .absent ((ds.map Declaration.sighting).map (·.verdict)) with he | hm
    · obtain ⟨d, hd⟩ := List.exists_mem_of_ne_nil _ hne
      have hle := hbest d hd
      rw [show (Lookup.ofSightings _).verdict = _ from he] at hle
      exact (h d hd (Verdict.rank_injective (Nat.le_zero.1 hle))).elim
    · obtain ⟨g, hg, hv⟩ := List.mem_map.1 hm
      obtain ⟨d, hd, rfl⟩ := List.mem_map.1 hg
      exact ⟨d, hd, hv⟩
  refine ⟨⟨fun ha => ?_, ?_⟩, hbest, hreached, ?_⟩
  · by_contra hne
    obtain ⟨d, hd, hv⟩ := hreached hne
    exact h d hd (hv.trans ha)
  · rintro rfl
    rfl
  · show ((ds.map Declaration.sighting).filter _).map _ = _
    rw [List.filter_map, List.map_map]
    rfl

/-! ## For interned types -/

theorem known_interned : Known TypeTable.Interned :=
  id

theorem SymbolTable.Presents.answers (h : s.Presents query (.between t t') i σ id d)
    (hs : s.AllGood TypeTable.Interned t) (hσ : ∀ arg ∈ σ.args, t.Interned arg)
    (hn : d.member.name = query.name) : s.Presents query (.final t') i σ id d := by
  have hg := TypeTable.hereditary_interned
  have hargs : ∀ q : QueryState, t ≤ q.types → ∀ arg ∈ σ.args, q.types.Interned arg :=
    fun q hq arg harg => (hσ arg harg).mono hq
  have huses : ∀ q : QueryState, t ≤ q.types → s.AllGood TypeTable.Interned q.types :=
    fun q hq ty hty => (hs ty hty).mono hq
  refine h.map (fun hp => ?_) (fun hp => ?_) (fun hp => ?_)
  · exact hp.answers known_interned fun q hq => .lift <| steady_instantiateAll hg (hargs q hq)
      fun ty hty => huses q hq ty (.parameter h.found hty)
  · exact hp.answers known_interned fun q hq => .lift <| steady_instantiate hg (hargs q hq)
      (huses q hq _ (.value h.found))
  · exact hp.answers known_interned fun q hq => steady_judge hg (huses q hq) hn

theorem steady_definitionOf {good : TypeTable → TypeId → Prop} (hty : good q.types level) :
    Steady good (QueryM.definitionOf level) (QueryM.definitionOf level) q fun _ _ => True := by
  refine Steady.ofTypes fun t ht => ?_
  rw [ht.defAndArgs?_eq hty]
  exact .pure trivial

theorem SymbolTable.LevelCensus.answers (h : s.LevelCensus query (.between t t') i level ds)
    (hs : s.AllGood TypeTable.Interned t) (hl : t.Interned level) :
    s.LevelCensus query (.final t') i level ds := by
  have hdef : ∀ {found}, Given t t' (QueryM.definitionOf level) found →
      Answers (QueryM.definitionOf level) t' found :=
    fun hd => hd.answers known_interned fun q hq => steady_definitionOf (hl.mono hq)
  cases h with
  | blank hd => exact .blank (hdef hd)
  | named hd hh =>
    obtain ⟨q, hq, -, hargs⟩ := id hd
    have hlater : Later TypeTable.Interned t q.types := ⟨hq, .inr known_interned⟩
    have hσ := TypeTable.hereditary_interned.args hl ((hlater.defAndArgs?_eq hl).symm.trans hargs)
    have hmem := (List.forall₂_and_left _ _).2 ⟨fun id hid => hid, hh⟩
    refine .named (hdef hd) (hmem.imp ?_)
    rintro id d ⟨hid, hp⟩
    exact hp.answers hs hσ (name_of_mem_membersNamed hid hp.found)

/-- **For interned types, a census is final.** -/
theorem SymbolTable.Census.answers (h : s.Census query (.between t t') i levels ds)
    (hs : s.AllGood TypeTable.Interned t) (hl : ∀ level ∈ levels, t.Interned level) :
    s.Census query (.final t') i levels ds := by
  induction h with
  | nil => exact .nil
  | cons hh _ ih =>
    rw [List.forall_mem_cons] at hl
    exact .cons (hh.answers hs hl.1) (ih hl.2)

/-! ## Lookup -/

theorem baseChain_of_defAndArgs?_eq_none (h : q.types.defAndArgs? ty = none) :
    s.baseChain ty q = ([ty], q) := by
  have hbase := baseType_of_none (s := s) h
  show s.climb (_ + 1) [ty] ty q = _
  rw [climb_succ_of_none (congrArg Prod.fst hbase), hbase]

/-- Lookup in a class walks its bases. -/
theorem lookup_apply {c : DefId × List TypeId} (hclass : s.isInterface q.types ty = false)
    (h : q.types.defAndArgs? (q.types.strip ty) = some c) {chain : List TypeId × QueryState}
    {seen : List Sighting × QueryState} (hchain : s.baseChain (q.types.strip ty) q = chain)
    (hseen : s.sightLevels query true [] chain.1 chain.2 = seen) :
    s.lookup ty query q = (.ofSightings seen.1, seen.2) := by
  have hstart : s.isInterface q.types (q.types.strip ty) = false := by
    rw [SymbolTable.isInterface, strip_of_defAndArgs? h]
    exact hclass
  have hlevels : s.levels (q.types.strip ty) q = chain := by
    show (if s.isInterface q.types (q.types.strip ty) then _ else _ : QueryM (List TypeId)) q = _
    rw [hstart]
    exact hchain
  refine lookup_of_some h hlevels ?_
  rw [hstart]
  exact hseen

/-- **Lookup in a class finds the best of what is kept.** All that the levels of the class declare
under the name can be told in a census of answers that were given between the table that the levels
were found on and a later one; and if all types are interned, in one of final answers. The outcome
has the best verdict on a declaration that is kept, and the declarations with it. -/
theorem lookup_bestOf_kept (s : SymbolTable) (ty : TypeId) (query : LookupQuery) (q : QueryState)
    (hclass : s.isInterface q.types ty = false) :
    ∃ (t' : TypeTable) (ds : List Declaration),
      (s.lookup ty query q).2.types ≤ t' ∧
      s.Census query (.between (s.baseChain (q.types.strip ty) q).2.types t') 0
        (s.baseChain (q.types.strip ty) q).1 ds ∧
      (s.AllGood TypeTable.Interned q.types → q.types.Interned ty →
        s.Census query (.final t') 0 (s.baseChain (q.types.strip ty) q).1 ds) ∧
      (s.lookup ty query q).1.BestOf (ds.filter (Declaration.Kept ds ·)) := by
  generalize hstart : q.types.strip ty = start
  have hchain : s.AllGood TypeTable.Interned q.types → q.types.Interned ty → _ := fun hs hty =>
    steady_baseChain TypeTable.hereditary_interned hs
      (hstart ▸ TypeTable.hereditary_interned.strip hty)
  have hfinal : ∀ {t' ds}, s.Census query (.between (s.baseChain start q).2.types t') 0
      (s.baseChain start q).1 ds → s.AllGood TypeTable.Interned q.types → q.types.Interned ty →
      s.Census query (.final t') 0 (s.baseChain start q).1 ds := fun hc hs hty =>
    hc.answers (hs.grow (hchain hs hty).grows) (hchain hs hty).post
  cases hd : q.types.defAndArgs? start with
  | none =>
    have hlookup : s.lookup ty query q = ({}, q) := by
      unfold SymbolTable.lookup
      rw [ofTypes_apply, hstart]
      simp only [hd]
      rfl
    have hc : s.Census query (.between (s.baseChain start q).2.types q.types) 0
        (s.baseChain start q).1 [] := by
      rw [baseChain_of_defAndArgs?_eq_none hd]
      exact .cons (.blank ⟨q, le_refl _, le_refl _, hd⟩) .nil
    refine ⟨q.types, [], ?_, hc, hfinal hc, ?_⟩
    · rw [hlookup]
    · rw [hlookup]
      exact bestOf_ofSightings (List.forall_mem_nil _)
  | some c =>
    generalize hchain' : s.baseChain start q = chain at hfinal ⊢
    generalize hseen : s.sightLevels query true [] chain.1 chain.2 = seen
    obtain ⟨t', ds, ht', hc, hsee⟩ :=
      exists_census_sightLevels .start (hseen ▸ le_refl seen.2.types)
    rw [hseen] at ht' hsee
    rw [lookup_apply hclass (hstart ▸ hd) (hstart ▸ hchain') hseen]
    refine ⟨t', ds, ht', hc, hfinal hc, ?_⟩
    rw [hsee]
    exact bestOf_ofSightings fun d hd => hc.verdict_ne_absent d (List.mem_filter.1 hd).1

end Census

/-- A class `C` whose base `B` overrides one of the methods `M` of the generic class `A`, and leaves
the other one, where `A` has a field `M` as well. -/
def overrideSymbols : SymbolTable where
  definitions := #[
    { name := "A", typeParams := ["T"], members := [⟨0⟩, ⟨1⟩, ⟨2⟩] },
    { name := "B", base? := some ⟨9⟩, members := [⟨3⟩] },
    { name := "C", base? := some ⟨10⟩ }]
  members := #[
    { owner := ⟨0⟩, name := "M", shape := .method [⟨8⟩] Intrinsic.void.id 0 },
    { owner := ⟨0⟩, name := "M", shape := .method [Intrinsic.long.id] ⟨8⟩ 0 },
    { owner := ⟨0⟩, name := "M", shape := .field ⟨8⟩ false },
    { owner := ⟨1⟩, name := "M", shape := .method [Intrinsic.int.id] Intrinsic.bool.id 0 }]

/-- The types of its declarations: `T`, `A<int>`, `B` and `C`. -/
def overrideTypes : TypeTable where
  shapes := #[.intrinsic .error, .intrinsic .void, .intrinsic .object, .intrinsic .int,
    .intrinsic .long, .intrinsic .double, .intrinsic .bool, .intrinsic .string,
    .parameter ⟨0⟩ 0, .applied ⟨0⟩ [⟨3⟩], .plain ⟨1⟩, .plain ⟨2⟩]
  getElem?_id := by intro k; cases k <;> rfl
  nodup := by decide

/-- Kept are the override, and the method of the generic base that it leaves, with `int` for `T`. -/
theorem bestOf_kept_of_override :
    overrideSymbols.isInterface overrideTypes ⟨11⟩ = false ∧
    (overrideSymbols.lookup ⟨11⟩ { name := "M" } { types := overrideTypes }).1 =
      { verdict := .viable
        candidates := [⟨⟨3⟩, Intrinsic.bool.id, [Intrinsic.int.id]⟩,
          ⟨⟨1⟩, Intrinsic.int.id, [Intrinsic.long.id]⟩] } ∧
    ∃ (t' : TypeTable) (ds : List Declaration),
      (overrideSymbols.lookup ⟨11⟩ { name := "M" } { types := overrideTypes }).2.types ≤ t' ∧
      overrideSymbols.Census { name := "M" } (.between (overrideSymbols.baseChain
        (overrideTypes.strip ⟨11⟩) { types := overrideTypes }).2.types t') 0
        (overrideSymbols.baseChain (overrideTypes.strip ⟨11⟩) { types := overrideTypes }).1 ds ∧
      (overrideSymbols.AllGood TypeTable.Interned overrideTypes → overrideTypes.Interned ⟨11⟩ →
        overrideSymbols.Census { name := "M" } (.final t') 0 (overrideSymbols.baseChain
          (overrideTypes.strip ⟨11⟩) { types := overrideTypes }).1 ds) ∧
      (overrideSymbols.lookup ⟨11⟩ { name := "M" } { types := overrideTypes }).1.BestOf
        (ds.filter (Declaration.Kept ds ·)) := by
  have hclass : overrideSymbols.isInterface overrideTypes ⟨11⟩ = false := by
    decide +kernel
  exact ⟨hclass, by decide +kernel, lookup_bestOf_kept _ _ _ _ hclass⟩

end UpdateExpr
