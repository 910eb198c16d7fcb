import UpdateExpr.Proofs.Symbol.Derivation
import UpdateExpr.Proofs.Symbol.Hiding

/-!
# Walks and their limit

The walks over bases and over interfaces stop at one and the same limit. As many types as that are
found, and all of them where there are no more. So relations between types, and lookup of members,
see whatever is above a type as long as it is within the limit; what is beyond is not seen, though
no definition leads back to itself.

## Main definitions

* `SymbolTable.LevelStep`: the step from one level of lookup to the next
* `SymbolTable.Names`: a tree declares a member of a name

## Main results

* `getLast?_baseChain`: the last of all bases is `object`, if each is a class with a known base
* `lookup_ne_absent_iff`: lookup finds a name that is declared within the limit
* `walks_within_limit`: what the walks and the questions that use them see
* `walks_beyond_limit`: what they do not see
-/

namespace UpdateExpr

/-- One step from level to level: to the interfaces of an interface, and to the base of a class. -/
def SymbolTable.LevelStep (s : SymbolTable) (t : TypeTable) (isInterface : Bool) :
    Ty → Ty → Prop :=
  if isInterface then s.Extends t else s.Derives t

/-- The definition of a tree declares a member of a name. -/
def SymbolTable.Names (s : SymbolTable) (x : Ty) (name : String) : Prop :=
  ∃ d, x.head? = some d ∧ s.membersNamed d name ≠ []

section Limit

variable {s : SymbolTable} {t u : TypeTable} {q : QueryState} {ty level : TypeId} {x y start : Ty}

/-! ## The last base -/

/-- A tree is `object`, or it applies a class whose base is known. -/
def SymbolTable.HasKnownBase (s : SymbolTable) (x : Ty) : Prop :=
  x = .intrinsic .object ∨ ∃ d c, x.head? = some d ∧ s.definition? d = some c ∧
    c.isInterface = false ∧ c.unresolvedBase? = none

theorem isSome_baseTree_of_class {d : DefId} {c : Definition} (hd : x.head? = some d)
    (hc : s.definition? d = some c) (hi : c.isInterface = false) (hu : c.unresolvedBase? = none) :
    (s.baseTree t x).isSome := by
  obtain ⟨⟨d, args⟩, hx, rfl⟩ := Option.map_eq_some_iff.1 hd
  unfold SymbolTable.baseTree
  rw [hx]
  dsimp only at hc ⊢
  rw [hc, Option.isSome_map, Option.bind_some, Definition.declaredBase?, hi, hu]
  rfl

/-- **The last of all bases is `object`**, if each of them is `object` or a class whose base is
known. -/
theorem getLast?_baseChain (hs : s.Ranked t) (hq : t ≤ q.types) (hty : q.types.Normal ty)
    (hlimit : WithinLimit (s.Derives t) (q.types.expand ty))
    (hknown : ∀ x, s.Ancestor t (q.types.expand ty) x → s.HasKnownBase x) :
    ((s.baseChain ty).trees q).getLast? = some (.intrinsic .object) := by
  obtain ⟨-, hchain, hall⟩ := upTo_baseChain hs.normal hq hty
  have hmem := fun x => hall.mem_iff (x := x) hlimit
  generalize (s.baseChain ty).trees q = chain at hchain hmem
  have hne : chain ≠ [] := List.ne_nil_of_mem ((hmem _).2 .refl)
  obtain ⟨last, hlast⟩ : ∃ last, chain.getLast? = some last :=
    ⟨chain.getLast hne, List.getLast?_eq_some_getLast hne⟩
  have hancestor := (hmem last).1 (List.mem_of_getLast? hlast)
  rcases hknown last hancestor with rfl | ⟨d, c, hd, hc, hi, hu⟩
  · exact hlast
  · obtain ⟨base, hbase⟩ := Option.isSome_iff_exists.1
      (isSome_baseTree_of_class (t := t) hd hc hi hu)
    have hback := reflTransGen_getLast hchain ((hmem base).2 (hancestor.tail hbase)) hlast
    obtain rfl := hs.ancestor_antisymm (.single hbase) hback
    obtain ⟨e, he, rfl | ⟨e', he', hlink⟩⟩ := hs.derives_cases hbase
    · cases he
    · obtain rfl := Option.some.inj (he'.symm.trans he)
      exact absurd (.single hlink) (hs.acyclic e')

/-! ## Lookup -/

theorem isHidden_nil (inClass : Bool) (signature? : Option Signature) :
    SymbolTable.isHidden inClass [] signature? = false := by
  cases signature? with
  | none => rfl
  | some signature => exact Bool.and_false inClass

section Sightings

variable (query : LookupQuery) (inClass : Bool) (above : List Signature) (σ : Substitution)

/-- What is seen has a verdict, and nothing is hidden where there is nothing above. -/
theorem sight_cases {id : MemberId} {m : Member} (hm : s.member? id = some m) (q : QueryState) :
    (∀ g ∈ (s.sight query inClass above σ id q).1, g.verdict ≠ .absent) ∧
      (above = [] → (s.sight query inClass above σ id q).1.isSome) := by
  rw [sight_apply 0 inClass above hm rfl rfl]
  split
  · next hh =>
    refine ⟨nofun, ?_⟩
    rintro rfl
    rw [isHidden_nil] at hh
    cases hh
  · refine ⟨?_, fun _ => rfl⟩
    rintro g ⟨⟩
    exact judge_ne_absent s query m _

theorem filterMapM_sight_cases {ids : List MemberId}
    (hids : ∀ id ∈ ids, ∃ m, s.member? id = some m ∧ m.name = query.name) (q : QueryState) :
    (∀ g ∈ (ids.filterMapM (s.sight query inClass above σ) q).1, g.verdict ≠ .absent) ∧
      (above = [] → ((ids.filterMapM (s.sight query inClass above σ) q).1 = [] ↔ ids = [])) := by
  induction ids generalizing q with
  | nil => exact ⟨nofun, fun _ => ⟨fun _ => rfl, fun _ => rfl⟩⟩
  | cons id ids ih =>
    rw [List.forall_mem_cons] at hids
    obtain ⟨⟨m, hm, -⟩, hids⟩ := hids
    obtain ⟨hverdict, hseen⟩ := sight_cases query inClass above σ hm q
    rw [filterMapM_cons_apply]
    refine ⟨List.forall_mem_append.2 ⟨fun g hg => ?_, (ih hids _).1⟩, fun habove => ?_⟩
    · exact hverdict g (Option.mem_toList.1 hg)
    · obtain ⟨g, hg⟩ := Option.isSome_iff_exists.1 (hseen habove)
      rw [hg]
      exact ⟨nofun, nofun⟩

/-- On a level with nothing above it, something is seen exactly if it declares the name. -/
theorem sightLevel_cases (hl : u.Normal level) (hu : u ≤ q.types) :
    (∀ g ∈ (s.sightLevel query inClass above level q).1, g.verdict ≠ .absent) ∧
      (above = [] → ((s.sightLevel query inClass above level q).1 = [] ↔
        ¬ s.Names (u.expand level) query.name)) := by
  have hlater : Later TypeTable.Interned u q.types := ⟨hu, .inr id⟩
  have hhead : (u.expand level).head? = (q.types.defAndArgs? level).map (·.1) := by
    rw [head?_expand hl, head?_eq_map, hlater.defAndArgs?_eq hl.interned]
  cases hd : q.types.defAndArgs? level with
  | none =>
    rw [hd] at hhead
    rw [sightLevel_of_none hd]
    refine ⟨nofun, fun _ => ⟨fun _ => ?_, fun _ => rfl⟩⟩
    rintro ⟨d, hd, -⟩
    cases hhead.symm.trans hd
  | some pair =>
    obtain ⟨d, args⟩ := pair
    rw [hd] at hhead
    rw [sightLevel_of_some hd]
    obtain ⟨hverdict, hseen⟩ := filterMapM_sight_cases (s := s) query inClass above
      (.ofType q.types level) (fun _ => member_of_mem_membersNamed (c := d)) q
    refine ⟨hverdict, fun habove => (hseen habove).trans ⟨fun hnil => ?_, fun hno => ?_⟩⟩
    · rintro ⟨e, he, hne⟩
      obtain rfl := Option.some.inj (hhead.symm.trans he)
      exact hne hnil
    · by_contra hne
      exact hno ⟨d, hhead, hne⟩

/-- On some levels, something is seen exactly if one of them declares the name. -/
theorem sightLevels_cases {levels : List TypeId} (hl : ∀ level ∈ levels, u.Normal level)
    (hu : u ≤ q.types) :
    (∀ g ∈ (s.sightLevels query inClass above levels q).1, g.verdict ≠ .absent) ∧
      (above = [] → ((s.sightLevels query inClass above levels q).1 = [] ↔
        ∀ level ∈ levels, ¬ s.Names (u.expand level) query.name)) := by
  induction levels generalizing above q with
  | nil => exact ⟨nofun, fun _ => ⟨fun _ => nofun, fun _ => rfl⟩⟩
  | cons level below ih =>
    rw [List.forall_mem_cons] at hl
    obtain ⟨hverdict, hseen⟩ := sightLevel_cases (s := s) query inClass above hl.1 hu
    have hle : q.types ≤ (s.sightLevel query inClass above level q).2.types :=
      le_sightLevel inClass above level q
    rw [SymbolTable.sightLevels, bind_apply]
    generalize s.sightLevel query inClass above level q = first at hverdict hseen hle
    split
    · next hfield =>
      refine ⟨hverdict, fun habove => ?_⟩
      have hne : first.1 ≠ [] := by
        intro hnil
        rw [hnil] at hfield
        cases hfield
      refine ⟨fun hnil => absurd hnil hne, fun hno => ?_⟩
      exact (hseen habove).2 (hno level List.mem_cons_self)
    · obtain ⟨hverdict', hseen'⟩ := ih (above ++ first.1.filterMap (·.signature?))
        (q := first.2) hl.2 (hu.trans hle)
      rw [bind_apply, pure_apply]
      refine ⟨List.forall_mem_append.2 ⟨hverdict, hverdict'⟩, fun habove => ?_⟩
      rw [List.append_eq_nil_iff, List.forall_mem_cons, hseen habove]
      refine and_congr_right fun hno => ?_
      have hnil := (hseen habove).2 hno
      exact hseen' (by rw [habove, hnil]; rfl)

end Sightings

/-- An outcome is better than that there is nothing exactly if something was seen. -/
theorem verdict_ofSightings_iff {seen : List Sighting} (h : ∀ g ∈ seen, g.verdict ≠ .absent) :
    (Lookup.ofSightings seen).verdict ≠ .absent ↔ seen ≠ [] := by
  constructor
  · rintro hv rfl
    exact hv rfl
  · intro hne
    obtain ⟨g, hg⟩ := List.exists_mem_of_ne_nil seen hne
    have hbest : g.verdict.rank ≤ (Lookup.ofSightings seen).verdict.rank :=
      (rank_le_foldl_best .absent _).2 _ (List.mem_map_of_mem hg)
    intro hv
    rw [hv] at hbest
    exact h g hg (Verdict.rank_injective (Nat.le_zero.1 hbest))

/-- **The levels of a type**, up to the limit. -/
theorem upTo_levels (hs : s.NormalBases t) (hs' : s.NormalInterfaces t) (hq : t ≤ q.types)
    (hty : q.types.Normal ty) :
    (∀ level ∈ (s.levels ty q).1, (s.levels ty q).2.types.Normal level) ∧
      UpTo (maxBaseSteps + 1) (s.LevelStep t (s.isInterface q.types ty)) (q.types.expand ty)
        ((s.levels ty).trees q) := by
  have hrun : s.levels ty q =
      (if s.isInterface q.types ty then s.interfaceClosure ty else s.baseChain ty) q := rfl
  rw [QueryM.trees, hrun, SymbolTable.LevelStep]
  cases s.isInterface q.types ty with
  | true => exact upTo_interfaceClosure hs' hq hty
  | false =>
    obtain ⟨hnormal, -, hall⟩ := upTo_baseChain hs hq hty
    exact ⟨hnormal, hall⟩

/-- A tree that applies no definition has no levels below it. -/
theorem eq_of_levelStep_of_defAndArgs?_eq_none {isInterface : Bool}
    (h : Relation.ReflTransGen (s.LevelStep t isInterface) x y) (hx : x.defAndArgs? = none) :
    x = y := by
  rcases Relation.ReflTransGen.cases_head h with rfl | ⟨z, hz, -⟩
  · rfl
  · cases isInterface with
    | true =>
      have hmem : z ∈ s.interfaceTrees t x := hz
      rw [SymbolTable.interfaceTrees, hx] at hmem
      cases hmem
    | false =>
      have hbase : s.baseTree t x = some z := hz
      rw [SymbolTable.baseTree, hx] at hbase
      cases hbase

/-- **Lookup finds a name exactly if a level declares it**, if the levels are within the limit. -/
theorem lookup_ne_absent_iff (hs : s.NormalBases t) (hs' : s.NormalInterfaces t)
    (hq : t ≤ q.types) (hty : q.types.Normal ty)
    (hlimit : WithinLimit (s.LevelStep t (s.isInterface q.types (q.types.strip ty)))
      (q.types.expand (q.types.strip ty))) :
    (s.lookup ty query q).1.verdict ≠ .absent ↔
      ∃ x, Relation.ReflTransGen (s.LevelStep t (s.isInterface q.types (q.types.strip ty)))
        (q.types.expand (q.types.strip ty)) x ∧ s.Names x query.name := by
  obtain ⟨hstrip, -⟩ := hty.strip
  generalize hstart : q.types.strip ty = start at hlimit hstrip
  cases hd : q.types.defAndArgs? start with
  | none =>
    rw [lookup_of_none (hstart ▸ hd)]
    refine ⟨fun hne => absurd rfl hne, ?_⟩
    rintro ⟨x, hx, d, hdef, -⟩
    have hblank : (q.types.expand start).defAndArgs? = none := by
      rw [defAndArgs?_expand hstrip, hd, Option.map_none]
    obtain rfl := eq_of_levelStep_of_defAndArgs?_eq_none hx hblank
    rw [Ty.head?, hblank] at hdef
    cases hdef
  | some pair =>
    have hrun : s.lookup ty query q = _ := lookup_of_some (hstart ▸ hd) rfl rfl
    rw [hstart] at hrun
    obtain ⟨hnormal, hall⟩ := upTo_levels hs hs' hq hstrip
    obtain ⟨hverdict, hseen⟩ := sightLevels_cases (s := s) query
      (!s.isInterface q.types start) [] hnormal (le_refl _)
    rw [hrun, verdict_ofSightings_iff hverdict, ne_eq, hseen rfl]
    push Not
    constructor
    · rintro ⟨level, hlevel, hnames⟩
      exact ⟨_, (hall.mem_iff hlimit).1 (List.mem_map_of_mem hlevel), hnames⟩
    · rintro ⟨x, hx, hnames⟩
      obtain ⟨level, hlevel, rfl⟩ := List.mem_map.1 ((hall.mem_iff hlimit).2 hx)
      exact ⟨level, hlevel, hnames⟩

end Limit

/-- **The walks see what is within their limit.** In any symbol table whose bases and interfaces are
types in normal form, and from any such type, the walk over bases finds the type and its ancestors,
each once and each the base of the one before it, and the walk over interfaces finds the type and
the interfaces that it reaches, each once: all of them, or as many as the limit allows. So where no
more is reached than that, derivation tells whether an ancestor is the same as a target, a type
implements what the interfaces of its ancestors reach, and lookup finds a name exactly if it is
declared on one of all levels of the type. And where moreover no definition leads back to itself and
all ancestors are classes whose bases are known, the last of them is `object`. -/
theorem walks_within_limit {s : SymbolTable} {t : TypeTable} (hs : s.NormalBases t)
    (hs' : s.NormalInterfaces t) {q : QueryState} (hq : t ≤ q.types) {ty : TypeId}
    (hty : q.types.Normal ty) :
    (((s.baseChain ty).trees q).head? = some (q.types.expand ty) ∧
      ((s.baseChain ty).trees q).IsChain (s.Derives t) ∧
      UpTo (maxBaseSteps + 1) (s.Derives t) (q.types.expand ty) ((s.baseChain ty).trees q)) ∧
    (((s.interfaceClosure ty).trees q).head? = some (q.types.expand ty) ∧
      UpTo (maxBaseSteps + 1) (s.Extends t) (q.types.expand ty)
        ((s.interfaceClosure ty).trees q)) ∧
    (s.Ranked t → WithinLimit (s.Derives t) (q.types.expand ty) →
      (∀ x, s.Ancestor t (q.types.expand ty) x → s.HasKnownBase x) →
      ((s.baseChain ty).trees q).getLast? = some (.intrinsic .object)) ∧
    (WithinLimit (s.Derives t) (q.types.expand (q.types.strip ty)) →
      (∀ strictness b, q.types.Normal b → ((s.derivesFrom strictness ty b q).1 = true ↔
        ∃ x, s.Ancestor t (q.types.expand (q.types.strip ty)) x ∧
          strictness.Same x (q.types.expand b))) ∧
      ((∀ x, s.Ancestor t (q.types.expand (q.types.strip ty)) x → WithinLimit (s.Extends t) x) →
        ∀ b, q.types.Normal b → ((s.implements ty b q).1 = true ↔
          ∃ x, s.Ancestor t (q.types.expand (q.types.strip ty)) x ∧
            ∃ y, s.Reaches t x y ∧ Strictness.ignoreNull.Same y (q.types.expand b)))) ∧
    UpTo (maxBaseSteps + 1) (s.LevelStep t (s.isInterface q.types (q.types.strip ty)))
      (q.types.expand (q.types.strip ty)) ((s.levels (q.types.strip ty)).trees q) ∧
    (WithinLimit (s.LevelStep t (s.isInterface q.types (q.types.strip ty)))
        (q.types.expand (q.types.strip ty)) →
      ∀ query, ((s.lookup ty query q).1.verdict ≠ .absent ↔
        ∃ x, Relation.ReflTransGen (s.LevelStep t (s.isInterface q.types (q.types.strip ty)))
          (q.types.expand (q.types.strip ty)) x ∧ s.Names x query.name)) := by
  refine ⟨⟨head?_baseChain s hty, (upTo_baseChain hs hq hty).2⟩,
    ⟨head?_interfaceClosure s hty, (upTo_interfaceClosure hs' hq hty).2⟩, ?_, ?_,
    (upTo_levels hs hs' hq hty.strip.1).2, ?_⟩
  · intro hranked hlimit hknown
    exact getLast?_baseChain hranked hq hty hlimit hknown
  · intro hlimit
    refine ⟨?_, ?_⟩
    · intro strictness b hb
      exact derivesFrom_iff_ancestor hs hq hty hb hlimit strictness
    · intro hlimits b hb
      exact implements_iff_reaches hs hs' hq hty hb hlimit hlimits
  · intro hlimit query
    exact lookup_ne_absent_iff hs hs' hq hty hlimit

theorem normal_stepTypes {i : Nat} (hi : i < 3) : stepTypes.expand ⟨i + 8⟩ = .plain ⟨i⟩ ∧
    stepTypes.Normal ⟨i + 8⟩ := by
  have hs : ∀ i < 3, stepTypes.shape? ⟨i + 8⟩ = some (.plain ⟨i⟩) := by decide +kernel
  have htree := TypeTable.expand_of_plain (hs i hi)
  refine ⟨htree, ?_⟩
  unfold TypeTable.Normal
  rw [htree]
  exact .plain _

theorem normalBases_stepSymbols : stepSymbols.NormalBases stepTypes := by
  intro d c base hc hb
  rcases base_of_declaredBase? hb with hdecl | rfl
  · rcases definition?_stepSymbols hc with ⟨-, hbase, -⟩ | ⟨-, hbase, -⟩ | ⟨-, hbase, -⟩
    · cases hbase.symm.trans hdecl
      exact (normal_stepTypes (i := 1) (by omega)).2
    · cases hbase.symm.trans hdecl
    · cases hbase.symm.trans hdecl
  · exact TypeTable.normal_id _ .object

theorem normalInterfaces_stepSymbols : stepSymbols.NormalInterfaces stepTypes := by
  intro d c interface hc hi
  rcases definition?_stepSymbols hc with ⟨-, -, hall⟩ | ⟨-, -, hall⟩ | ⟨-, -, hall⟩
  · rw [hall] at hi
    cases hi
  · rw [hall, List.mem_singleton] at hi
    subst hi
    exact (normal_stepTypes (i := 2) (by omega)).2
  · rw [hall] at hi
    cases hi

theorem ancestor_stepSymbols {x : Ty} :
    stepSymbols.Ancestor stepTypes (.plain ⟨0⟩) x ↔
      x = .plain ⟨0⟩ ∨ x = .plain ⟨1⟩ ∨ x = .intrinsic .object := by
  have hbase : stepTypes.expand ⟨9⟩ = .plain ⟨1⟩ := (normal_stepTypes (i := 1) (by omega)).1
  have hobject : stepTypes.expand .object = .intrinsic .object := stepTypes.expand_id .object
  have hd : stepSymbols.baseTree stepTypes (.plain ⟨0⟩) = some (.plain ⟨1⟩) := by
    show some ((stepTypes.expand ⟨9⟩).subst (Ty.argTree ⟨0⟩ [])) = _
    rw [hbase]
    rfl
  have hb : stepSymbols.baseTree stepTypes (.plain ⟨1⟩) = some (.intrinsic .object) := by
    show some ((stepTypes.expand .object).subst (Ty.argTree ⟨1⟩ [])) = _
    rw [hobject]
    rfl
  constructor
  · intro h
    induction h with
    | refl => exact .inl rfl
    | tail _ hy ih =>
      rcases ih with rfl | rfl | rfl
      · exact .inr (.inl (Option.some.inj (hy.symm.trans hd)))
      · exact .inr (.inr (Option.some.inj (hy.symm.trans hb)))
      · cases hy
  · rintro (rfl | rfl | rfl)
    · exact .refl
    · exact .single hd
    · exact .tail (.single hd) hb

theorem interface_of_extends_stepSymbols {x y : Ty} (h : stepSymbols.Extends stepTypes x y) :
    y = .plain ⟨2⟩ := by
  unfold SymbolTable.Extends SymbolTable.interfaceTrees at h
  cases hx : x.defAndArgs? with
  | none =>
    rw [hx] at h
    cases h
  | some pair =>
    obtain ⟨d, args⟩ := pair
    rw [hx] at h
    obtain ⟨i, hi, rfl⟩ := List.mem_map.1 h
    cases hc : stepSymbols.definition? d with
    | none =>
      rw [hc] at hi
      cases hi
    | some c =>
      rw [hc] at hi
      have hi : i ∈ c.interfaces := hi
      rcases definition?_stepSymbols hc with ⟨-, -, hall⟩ | ⟨-, -, hall⟩ | ⟨-, -, hall⟩
      · rw [hall] at hi
        cases hi
      · rw [hall, List.mem_singleton] at hi
        subst hi
        rw [(normal_stepTypes (i := 2) (by omega)).1]
        rfl
      · rw [hall] at hi
        cases hi

/-- Each tree reaches at most itself and the interface `I`. -/
theorem withinLimit_extends_stepSymbols (x : Ty) :
    WithinLimit (stepSymbols.Extends stepTypes) x := by
  have hsub : {y | stepSymbols.Reaches stepTypes x y} ⊆ {x, .plain ⟨2⟩} := by
    intro y hy
    rcases Relation.ReflTransGen.cases_tail hy with rfl | ⟨z, -, hz⟩
    · exact .inl rfl
    · exact .inr (interface_of_extends_stepSymbols hz)
  calc {y | stepSymbols.Reaches stepTypes x y}.encard
      ≤ Set.encard {x, .plain ⟨2⟩} := Set.encard_le_encard hsub
    _ ≤ Set.encard {Ty.plain ⟨2⟩} + 1 := Set.encard_insert_le _ x
    _ = 1 + 1 := by rw [Set.encard_singleton]
    _ ≤ (maxBaseSteps + 1 : ℕ) := by exact_mod_cast (by decide : 1 + 1 ≤ maxBaseSteps + 1)

/-- Of the class `D`, the bases end in `object`; it derives from that, and it implements the
interface of its base. -/
theorem walks_within_limit_of_step :
    (stepSymbols.NormalBases stepTypes ∧ stepSymbols.NormalInterfaces stepTypes ∧
      stepSymbols.Ranked stepTypes ∧ stepTypes.Normal ⟨8⟩ ∧
      WithinLimit (stepSymbols.Derives stepTypes) (stepTypes.expand ⟨8⟩)) ∧
    ((stepSymbols.baseChain ⟨8⟩).trees { types := stepTypes }).getLast? =
      some (.intrinsic .object) ∧
    (stepSymbols.derivesFrom .exact ⟨8⟩ .object { types := stepTypes }).1 = true ∧
    (stepSymbols.implements ⟨8⟩ ⟨10⟩ { types := stepTypes }).1 = true := by
  have hranked := ordered_stepSymbols.ranked normalBases_stepSymbols
  have hle : stepTypes ≤ ({ types := stepTypes } : QueryState).types := le_refl _
  obtain ⟨hd, hnormal⟩ := normal_stepTypes (i := 0) (by omega)
  obtain ⟨hi, hnormal'⟩ := normal_stepTypes (i := 2) (by omega)
  have hobject : stepTypes.expand .object = .intrinsic .object := stepTypes.expand_id .object
  have hlimit : WithinLimit (stepSymbols.Derives stepTypes) (stepTypes.expand ⟨8⟩) := by
    refine (hranked.encard_ancestor_le _).trans ?_
    exact_mod_cast (by decide : stepSymbols.definitions.size + 1 ≤ maxBaseSteps + 1)
  have hknown : ∀ x, stepSymbols.Ancestor stepTypes (stepTypes.expand ⟨8⟩) x →
      stepSymbols.HasKnownBase x := by
    intro x hx
    rw [hd, ancestor_stepSymbols] at hx
    rcases hx with rfl | rfl | rfl
    · exact .inr ⟨⟨0⟩, _, rfl, rfl, rfl, rfl⟩
    · exact .inr ⟨⟨1⟩, _, rfl, rfl, rfl, rfl⟩
    · exact .inl rfl
  have hstrip : stepTypes.strip ⟨8⟩ = ⟨8⟩ := by decide +kernel
  obtain ⟨-, -, hlast, hrelations, -, -⟩ := walks_within_limit normalBases_stepSymbols
    normalInterfaces_stepSymbols hle hnormal
  dsimp only at hlast hrelations
  rw [hstrip] at hrelations
  obtain ⟨hderives, himplements⟩ := hrelations hlimit
  refine ⟨⟨normalBases_stepSymbols, normalInterfaces_stepSymbols, hranked, hnormal, hlimit⟩,
    hlast hranked hlimit hknown, ?_, ?_⟩
  · rw [hderives .exact .object (TypeTable.normal_id _ .object), hd]
    exact ⟨.intrinsic .object, ancestor_stepSymbols.2 (.inr (.inr rfl)), hobject.symm⟩
  · rw [himplements (fun x _ => withinLimit_extends_stepSymbols x) ⟨10⟩ hnormal', hd]
    refine ⟨.plain ⟨1⟩, ancestor_stepSymbols.2 (.inr (.inl rfl)), .plain ⟨2⟩, .single ?_, ?_⟩
    · refine List.mem_map.2 ⟨⟨10⟩, List.mem_singleton_self _, ?_⟩
      rw [hi]
      rfl
    · exact congrArg Ty.withoutNull hi.symm

/-! ## Beyond the limit -/

/-- 65 classes, each with the next one as its base; an interface that extends 65 others, of which
the last one has a member `M`; and a class `P<T>` with the base `T`. -/
def limitSymbols : SymbolTable where
  definitions := ((List.range 131).map fun i =>
    if i < 64 then { name := "C", base? := some ⟨i + 9⟩ }
    else if i = 65 then
      { name := "I", isInterface := true, interfaces := (List.range 65).map fun k => ⟨k + 74⟩ }
    else
      { name := "L", isInterface := decide (64 < i), members := if i = 130 then [⟨0⟩] else [] })
    |>.toArray.push { name := "P", typeParams := ["T"], base? := some ⟨139⟩ }
  members := #[{ owner := ⟨130⟩, name := "M", shape := .field Intrinsic.int.id false }]

/-- The shapes of these definitions, with `T` and `P<int>`. -/
def limitShapes : List TypeShape :=
  Intrinsic.all.map .intrinsic ++ (List.range 131).map (fun i => .plain ⟨i⟩) ++
    [.parameter ⟨131⟩ 0, .applied ⟨131⟩ [Intrinsic.int.id]]

theorem nodup_limitShapes : limitShapes.Nodup := by
  have hplain : ((List.range 131).map fun i => TypeShape.plain ⟨i⟩).Nodup :=
    List.nodup_range.map fun i j h => by cases h; rfl
  refine List.nodup_append.2 ⟨List.nodup_append.2 ⟨by decide, hplain, ?_⟩, by decide, ?_⟩
  · intro a ha b hb
    obtain ⟨k, -, rfl⟩ := List.mem_map.1 ha
    obtain ⟨i, -, rfl⟩ := List.mem_map.1 hb
    exact nofun
  · intro a ha b hb
    rw [List.mem_append, List.mem_map, List.mem_map] at ha
    rw [List.mem_pair] at hb
    rcases ha with ⟨k, -, rfl⟩ | ⟨i, -, rfl⟩ <;> rcases hb with rfl | rfl <;> exact nofun

/-- The table of these types. -/
def limitTypes : TypeTable where
  shapes := limitShapes.toArray
  getElem?_id := by intro k; cases k <;> decide +kernel
  nodup := nodup_limitShapes

theorem expand_limitTypes {i : Nat} (hi : i < 131) : limitTypes.expand ⟨i + 8⟩ = .plain ⟨i⟩ := by
  have hs : ∀ i < 131, limitTypes.shape? ⟨i + 8⟩ = some (.plain ⟨i⟩) := by decide +kernel
  exact TypeTable.expand_of_plain (hs i hi)

/-- Each definition is numbered below those that it links to. -/
theorem lt_of_links_limitSymbols {d e : DefId} (h : limitSymbols.Links limitTypes d e) :
    d.index < e.index := by
  have hall : ∀ i < 132, ∀ c ∈ limitSymbols.definition? ⟨i⟩, ∀ ty ∈ c.base?.toList ++ c.interfaces,
      ∀ e ∈ limitTypes.head? ty, i < e.index := by decide +kernel
  obtain ⟨c, ty, hc, hty, he⟩ := h
  have hlt : d.index < limitSymbols.definitions.size := (Array.getElem?_eq_some_iff.1 hc).1
  have hsize : limitSymbols.definitions.size = 132 := by decide +kernel
  refine hall d.index (hsize ▸ hlt) c hc ty ?_ e he
  rw [List.mem_append, Option.mem_toList]
  exact hty

/-- The first class has `object` above it, after all the other classes. -/
theorem ancestor_limitSymbols :
    limitSymbols.Ancestor limitTypes (limitTypes.expand ⟨8⟩) (.intrinsic .object) := by
  have hbase : ∀ i < 64, (limitSymbols.definition? ⟨i⟩).bind Definition.declaredBase? =
      some ⟨i + 1 + 8⟩ := by decide +kernel
  have hlast : (limitSymbols.definition? ⟨64⟩).bind Definition.declaredBase? = some .object := by
    decide +kernel
  have hup : ∀ i ≤ 64, limitSymbols.Ancestor limitTypes (.plain ⟨0⟩) (.plain ⟨i⟩) := by
    intro i hi
    induction i with
    | zero => exact .refl
    | succ i ih =>
      refine (ih (by omega)).tail ?_
      rw [SymbolTable.Derives, baseTree_plain, hbase i (by omega), Option.map_some,
        expand_limitTypes (by omega)]
      rfl
  have hfirst : limitTypes.expand ⟨8⟩ = .plain ⟨0⟩ := expand_limitTypes (i := 0) (by omega)
  have hobject : limitTypes.expand .object = .intrinsic .object := limitTypes.expand_id .object
  rw [hfirst]
  refine (hup 64 (le_refl _)).tail ?_
  rw [SymbolTable.Derives, baseTree_plain, hlast, Option.map_some, hobject]
  rfl

/-- The interface extends the last of the others. -/
theorem extends_limitSymbols :
    limitSymbols.Extends limitTypes (limitTypes.expand ⟨73⟩) (limitTypes.expand ⟨138⟩) := by
  have hmem : ⟨138⟩ ∈ ((limitSymbols.definition? ⟨65⟩).map Definition.interfaces).getD [] := by
    decide +kernel
  have hinterface : limitTypes.expand ⟨73⟩ = .plain ⟨65⟩ := expand_limitTypes (i := 65) (by omega)
  have hlast : limitTypes.expand ⟨138⟩ = .plain ⟨130⟩ := expand_limitTypes (i := 130) (by omega)
  rw [SymbolTable.Extends, hinterface, interfaceTrees_plain]
  refine List.mem_map.2 ⟨⟨138⟩, hmem, ?_⟩
  rw [hlast]
  rfl

/-- **Beyond the limit, the walks miss something**, though no definition leads back to itself: the
first class does not derive from `object`, which stands above it; the interface does not implement
the last one that it extends, and does not find its member; and the bases of `P<int>` end in `int`,
since the base that `P<T>` declares is its parameter. -/
theorem walks_beyond_limit :
    (∀ d, ¬ Relation.TransGen (limitSymbols.Links limitTypes) d d) ∧
    (limitSymbols.Ancestor limitTypes (limitTypes.expand ⟨8⟩) (.intrinsic .object) ∧
      (limitSymbols.derivesFrom .ignoreNull ⟨8⟩ .object { types := limitTypes }).1 = false) ∧
    (limitSymbols.Extends limitTypes (limitTypes.expand ⟨73⟩) (limitTypes.expand ⟨138⟩) ∧
      (limitSymbols.implements ⟨73⟩ ⟨138⟩ { types := limitTypes }).1 = false ∧
      (limitSymbols.lookup ⟨138⟩ { name := "M" } { types := limitTypes }).1.verdict = .viable ∧
      (limitSymbols.lookup ⟨73⟩ { name := "M" } { types := limitTypes }).1.verdict = .absent) ∧
    (limitSymbols.baseChain ⟨140⟩ { types := limitTypes }).1 = [⟨140⟩, Intrinsic.int.id] := by
  refine ⟨not_transGen_self_of_index_lt lt_of_links_limitSymbols, ⟨ancestor_limitSymbols, ?_⟩,
    ⟨extends_limitSymbols, ?_, ?_, ?_⟩, ?_⟩
  all_goals decide +kernel

end UpdateExpr
