import UpdateExpr.Proofs.Symbol.Lineage
import UpdateExpr.Symbol.Lookup

/-!
# What lookup offers

A member that lookup finds to be usable is one that its level declares, that code may use from where
it is asked for, and that has its type with the type arguments of the level in place. All of this
is said of the table in the end, when more types may have come than were known on the way.

## Main definitions

* `SymbolTable.Declares`: a member with its type, as a level declares it
* `SymbolTable.Offers`: a member that a type has on one of its levels, and that may be used
* `LookupQuery.Admits`: a member is one of the kind that is looked for

## Main results

* `steady_lookup`: lookup is steady, and what it finds is offered
-/

namespace UpdateExpr

/-- A level declares a member: the level is an application of the definition that has it, and its
type is the declared one with the type arguments of the level in place. -/
structure SymbolTable.Declares (s : SymbolTable) (t : TypeTable) (level : TypeId) (c : Candidate)
    (m : Member) : Prop where
  found : s.member? c.member = some m
  level : ∃ d args, t.defAndArgs? level = some (d, args) ∧ c.member ∈ s.membersNamed d m.name ∧
    Answers (Substitution.instantiate ⟨some d, args⟩ m.valueType) t c.ty

/-- A type, without its `null`, has a member on one of its levels, and code may use it. -/
structure SymbolTable.Offers (s : SymbolTable) (asking? : Option DefId) (t : TypeTable)
    (receiver : TypeId) (c : Candidate) (m : Member) : Prop where
  declared : ∃ levels level, Answers (s.levels (t.strip receiver)) t levels ∧ level ∈ levels ∧
    s.Declares t level c m
  accessible : Answers (s.isAccessible m asking?) t true

/-- A member is of the kind that is looked for. -/
structure LookupQuery.Admits (query : LookupQuery) (m : Member) : Prop where
  name : m.name = query.name
  arity : m.arity = query.arity
  isMethod : query.invocableOnly = true → m.isMethod = true
  isStatic : query.instanceOnly = true → m.isStatic = false

/-- What is seen on a level is a member of it, and if it is usable, it is what was looked for. -/
structure Sighting.FromLevel (s : SymbolTable) (query : LookupQuery)
    (good : TypeTable → TypeId → Prop) (t : TypeTable) (level : TypeId) (g : Sighting)
    (m : Member) : Prop where
  found : s.member? g.candidate.member = some m
  ty : good t g.candidate.ty
  params : g.candidate.params = [] ↔ m.parameters = []
  admits : g.verdict = .viable → query.Admits m
  accessible : g.verdict = .viable → Known good → Answers (s.isAccessible m query.asking?) t true
  declares : Known good → s.Declares t level g.candidate m

section Lookup

variable {good : TypeTable → TypeId → Prop} {s : SymbolTable} {query : LookupQuery}
  {q : QueryState} {t t' : TypeTable} {ty level : TypeId} {m : Member} {c : Candidate}
  {d : DefId} {args : List TypeId} {g : Sighting}

theorem defAndArgs?_of_le (h : t ≤ t') (hd : t.defAndArgs? ty = some (d, args)) :
    t'.defAndArgs? ty = some (d, args) := by
  unfold TypeTable.defAndArgs? at hd
  split at hd
  · next hs => rw [TypeTable.defAndArgs?, TypeTable.shape?_of_le h hs]; exact hd
  · next hs => rw [TypeTable.defAndArgs?, TypeTable.shape?_of_le h hs]; exact hd
  · cases hd

/-- A type that applies a definition has no `null`. -/
theorem strip_of_defAndArgs? (hd : t.defAndArgs? ty = some (d, args)) : t.strip ty = ty := by
  unfold TypeTable.defAndArgs? at hd
  unfold TypeTable.strip TypeTable.nullableInner?
  split at hd
  · next hs => rw [hs]; rfl
  · next hs => rw [hs]; rfl
  · cases hd

theorem SymbolTable.Declares.mono (hd : s.Declares t level c m) (h : t ≤ t') :
    s.Declares t' level c m := by
  obtain ⟨hf, d, args, hl, hm, hty⟩ := hd
  exact ⟨hf, d, args, defAndArgs?_of_le h hl, hm, hty.mono h⟩

theorem SymbolTable.Offers.mono {asking? : Option DefId} (ho : s.Offers asking? t ty c m)
    (h : Later good t t') (hty : good t ty) : s.Offers asking? t' ty c m := by
  obtain ⟨⟨levels, level, hl, hmem, hd⟩, ha⟩ := ho
  refine ⟨⟨levels, level, ?_, hmem, hd.mono h.1⟩, ha.mono h.1⟩
  rw [h.strip_eq hty]
  exact hl.mono h.1

theorem Sighting.FromLevel.mono (hf : g.FromLevel s query good t level m) (h : Grows good t t') :
    g.FromLevel s query good t' level m where
  found := hf.found
  ty := h.keep hf.ty
  params := hf.params
  admits := hf.admits
  accessible hv hk := (hf.accessible hv hk).mono h.le
  declares hk := (hf.declares hk).mono h.le

/-- The arguments that a type gives to its own definition are its arguments. -/
theorem instantiate_ofType (h : t.defAndArgs? level = some (d, args)) :
    (Substitution.ofType t level).instantiate ty = Substitution.instantiate ⟨some d, args⟩ ty := by
  unfold Substitution.ofType
  rw [h]
  cases args with
  | nil =>
    funext t'
    rw [Substitution.instantiate_of_isEmpty rfl, Substitution.instantiate_of_isEmpty rfl]
  | cons arg args => rfl

theorem args_ofType (h : t.defAndArgs? level = some (d, args)) :
    (Substitution.ofType t level).args = args := by
  unfold Substitution.ofType
  rw [h]
  cases args <;> rfl

/-! ## One member -/

theorem steady_isAccessible (hg : TypeTable.Hereditary good) (hs : s.AllGood good q.types)
    (m : Member) (asking? : Option DefId) :
    Steady good (s.isAccessible m asking?) (s.isAccessible m asking?) q fun _ _ => True := by
  unfold SymbolTable.isAccessible
  split
  · exact .pure trivial
  · exact .pure trivial
  · exact steady_derivesFromDefinition hg hs _ _
  · exact .pure trivial

/-- A member that is judged to be usable is of the kind that is looked for, and accessible. -/
theorem steady_judge (hg : TypeTable.Hereditary good) (hs : s.AllGood good q.types)
    (hn : m.name = query.name) :
    Steady good (s.judge query m) (s.judge query m) q fun t v => v = .viable →
      query.Admits m ∧ (Known good → Answers (s.isAccessible m query.asking?) t true) := by
  unfold SymbolTable.judge
  split
  · exact .pure nofun
  next harity =>
  split
  · exact .pure nofun
  next hmethod =>
  split
  · exact .pure nofun
  next hstatic =>
  refine (steady_isAccessible hg hs m query.asking?).bind fun accessible q' _ _ hans => ?_
  cases accessible with
  | false => exact .pure nofun
  | true =>
    refine .pure fun _ => ⟨⟨hn, not_not.1 harity, fun hi => ?_, fun hi => ?_⟩, hans⟩
    · simpa [hi] using hmethod
    · simpa [hi] using hstatic

theorem name_of_mem_membersNamed {id : MemberId} {name : String} (h : id ∈ s.membersNamed d name)
    (hm : s.member? id = some m) : m.name = name := by
  unfold SymbolTable.membersNamed at h
  split at h
  · have hname := (List.mem_filter.1 h).2
    rw [hm] at hname
    simpa using hname
  · cases h

theorem steady_sight (hg : TypeTable.Hereditary good) (hs : s.AllGood good q.types)
    (hl : t.defAndArgs? level = some (d, args)) (ht : t ≤ q.types)
    (hargs : ∀ arg ∈ args, good q.types arg) (inClass : Bool) (above : List Signature)
    {id : MemberId} (hid : id ∈ s.membersNamed d query.name) :
    Steady good (s.sight query inClass above (.ofType t level) id)
      (s.sight query inClass above (.ofType t level) id) q
      fun t g? => ∀ g ∈ g?, ∃ m, g.FromLevel s query good t level m := by
  have hσ : ∀ {t'}, Grows good q.types t' →
      ∀ arg ∈ (Substitution.ofType t level).args, good t' arg := by
    intro t' hgrow arg harg
    rw [args_ofType hl] at harg
    exact hgrow.keep (hargs arg harg)
  unfold SymbolTable.sight
  cases hm : s.member? id with
  | none => exact .pure (by simp)
  | some m =>
    have hname : m.name = query.name := name_of_mem_membersNamed hid hm
    have hall : Steady good ((Substitution.ofType t level).instantiateAll m.parameters)
        ((Substitution.ofType t level).instantiateAll m.parameters) q.types
        fun t params => (∀ ty ∈ params, good t ty) ∧ params.length = m.parameters.length :=
      (steady_instantiateAll hg (hσ .refl) fun ty hty => hs ty (.parameter hm hty)).also
        (length_instantiateAll _ _)
    refine (Steady.lift hall).bind fun params q₁ hgrow₁ hparams _ => ?_
    generalize (if m.isMethod then some ⟨m.arity, params⟩ else none : Option Signature) = signature?
    dsimp only
    split
    · exact .pure (by simp)
    · refine (steady_judge hg (hs.grow hgrow₁) hname).bind fun v q₂ hgrow₂ hv _ => ?_
      have hgrow := hgrow₁.trans hgrow₂
      have hty : good q₂.types m.valueType := hgrow.keep (hs _ (.value hm))
      refine (Steady.lift (steady_instantiate hg (hσ hgrow) hty)).bind ?_
      intro ty q₃ hgrow₃ hty hans
      refine .pure ?_
      rintro g ⟨⟩
      refine ⟨m, hm, hty, ?_, fun hview => (hv hview).1, fun hview hk => ?_, fun hk => ?_⟩
      · show params = [] ↔ _
        rw [← List.length_eq_zero_iff, hparams.2, List.length_eq_zero_iff]
      · exact ((hv hview).2 hk).mono hgrow₃.le
      · have hle : t ≤ q₃.types := ht.trans (hgrow.trans hgrow₃).le
        refine ⟨hm, d, args, defAndArgs?_of_le hle hl, hname ▸ hid, ?_⟩
        rw [← instantiate_ofType hl]
        exact answers_of_lift (hans hk)

/-! ## Levels -/

theorem steady_sightLevel (hg : TypeTable.Hereditary good) (hs : s.AllGood good q.types)
    (hgood : good q.types level) (inClass : Bool) (above : List Signature) :
    Steady good (s.sightLevel query inClass above level) (s.sightLevel query inClass above level) q
      fun t seen => ∀ g ∈ seen, ∃ m, g.FromLevel s query good t level m := by
  refine Steady.ofTypes fun t ht => ?_
  rw [ht.defAndArgs?_eq hgood]
  cases hl : q.types.defAndArgs? level with
  | none => exact .pure (by simp)
  | some pair =>
    obtain ⟨d, args⟩ := pair
    have hσ : Substitution.ofType t level = Substitution.ofType q.types level := by
      rw [Substitution.ofType, Substitution.ofType, ht.defAndArgs?_eq hgood]
    dsimp only
    rw [hσ]
    refine Steady.filterMapM ?_ fun id hid q₁ hgrow => ?_
    · rintro t t' g hgrow ⟨m, hm⟩
      exact ⟨m, hm.mono hgrow⟩
    · exact steady_sight hg (hs.grow hgrow) hl hgrow.le
        (fun arg harg => hgrow.keep (hg.args hgood hl arg harg)) inClass above hid

theorem steady_sightLevels (hg : TypeTable.Hereditary good) (hs : s.AllGood good q.types)
    {levels : List TypeId} (hl : ∀ level ∈ levels, good q.types level) (inClass : Bool)
    (above : List Signature) :
    Steady good (s.sightLevels query inClass above levels)
      (s.sightLevels query inClass above levels) q
      fun t seen => ∀ g ∈ seen, ∃ level ∈ levels, ∃ m, g.FromLevel s query good t level m := by
  induction levels generalizing above q with
  | nil => exact .pure (by simp)
  | cons level below ih =>
    rw [List.forall_mem_cons] at hl
    refine (steady_sightLevel hg hs hl.1 inClass above).bind fun seen q₁ hgrow₁ hseen _ => ?_
    have hfirst : ∀ {t}, Grows good q₁.types t → ∀ g ∈ seen,
        ∃ l ∈ level :: below, ∃ m, g.FromLevel s query good t l m := by
      intro t hgrow g hgs
      obtain ⟨m, hm⟩ := hseen g hgs
      exact ⟨level, by simp, m, hm.mono hgrow⟩
    split
    · exact .pure (hfirst .refl)
    · refine (ih (hs.grow hgrow₁) (fun l hlb => hgrow₁.keep (hl.2 l hlb)) _).bind ?_
      intro rest q₂ hgrow₂ hrest _
      refine .pure (List.forall_mem_append.2 ⟨hfirst hgrow₂, fun g hgr => ?_⟩)
      obtain ⟨l, hlb, hm⟩ := hrest g hgr
      exact ⟨l, List.mem_cons_of_mem _ hlb, hm⟩

theorem Later.isInterface_eq (h : Later good t t') (hg : TypeTable.Hereditary good)
    (hty : good t ty) : s.isInterface t' ty = s.isInterface t ty := by
  rw [SymbolTable.isInterface, SymbolTable.isInterface, h.strip_eq hty,
    h.defAndArgs?_eq (hg.strip hty)]

/-- The levels of a type. -/
theorem steady_levels (hg : TypeTable.Hereditary good) (hs : s.AllGood good q.types)
    (hty : good q.types ty) :
    Steady good (s.levels ty) (s.levels ty) q fun t levels => ∀ level ∈ levels, good t level := by
  refine Steady.ofTypes fun t ht => ?_
  rw [ht.isInterface_eq hg hty]
  split
  · exact steady_interfaceClosure hg hs hty
  · exact steady_baseChain hg hs hty

/-! ## Lookup -/

/-- A usable member that lookup finds for a type. -/
structure LookupQuery.Finds (query : LookupQuery) (s : SymbolTable)
    (good : TypeTable → TypeId → Prop) (t : TypeTable) (receiver : TypeId) (c : Candidate)
    (m : Member) : Prop where
  found : s.member? c.member = some m
  ty : good t c.ty
  params : c.params = [] ↔ m.parameters = []
  admits : query.Admits m
  offers : Known good → s.Offers query.asking? t receiver c m

theorem foldl_best_cases (v : Verdict) (vs : List Verdict) :
    vs.foldl Verdict.best v = v ∨ vs.foldl Verdict.best v ∈ vs := by
  induction vs generalizing v with
  | nil => exact .inl rfl
  | cons w vs ih =>
    rw [List.foldl_cons]
    rcases ih (v.best w) with h | h
    · rw [h]
      unfold Verdict.best
      split
      · exact .inr (by simp)
      · exact .inl rfl
    · exact .inr (List.mem_cons_of_mem _ h)

/-- A usable outcome has a candidate. -/
theorem candidates_ne_nil {seen : List Sighting} (h : (Lookup.ofSightings seen).isViable = true) :
    (Lookup.ofSightings seen).candidates ≠ [] := by
  have hv : (seen.map (·.verdict)).foldl Verdict.best .absent = .viable := eq_of_beq h
  rcases foldl_best_cases .absent (seen.map (·.verdict)) with he | hm
  · rw [hv] at he
    cases he
  · obtain ⟨g, hg, hgv⟩ := List.mem_map.1 hm
    refine List.ne_nil_of_mem (List.mem_map.2 ⟨g, List.mem_filter.2 ⟨hg, ?_⟩, rfl⟩)
    exact beq_iff_eq.2 hgv

/-- Lookup in a type that applies no definition finds nothing. -/
theorem lookup_of_none (h : q.types.defAndArgs? (q.types.strip ty) = none) :
    s.lookup ty query q = ({}, q) := by
  unfold SymbolTable.lookup
  rw [ofTypes_apply]
  simp only [h]
  rfl

/-- Lookup asks for the levels of the type, without its `null`, and looks at them one after
another. -/
theorem lookup_of_some {pair : DefId × List TypeId}
    (h : q.types.defAndArgs? (q.types.strip ty) = some pair) {levels : List TypeId × QueryState}
    {seen : List Sighting × QueryState} (hlevels : s.levels (q.types.strip ty) q = levels)
    (hseen : s.sightLevels query (!s.isInterface q.types (q.types.strip ty)) [] levels.1 levels.2 =
      seen) : s.lookup ty query q = (.ofSightings seen.1, seen.2) := by
  unfold SymbolTable.lookup
  rw [ofTypes_apply]
  simp only [h, bind_apply, hlevels]
  rw [← hseen]
  rfl

/-- **What lookup finds is offered.** -/
theorem steady_lookup (hg : TypeTable.Hereditary good) (hs : s.AllGood good q.types)
    (hty : good q.types ty) :
    Steady good (s.lookup ty query) (s.lookup ty query) q fun t l => l.isViable = true →
      l.candidates ≠ [] ∧ ∀ c ∈ l.candidates, ∃ m, query.Finds s good t ty c m := by
  refine Steady.ofTypes fun t ht => ?_
  have hstrip := hg.strip hty
  rw [ht.strip_eq hty]
  dsimp only
  rw [ht.defAndArgs?_eq hstrip, ht.isInterface_eq hg hstrip]
  cases q.types.defAndArgs? (q.types.strip ty) with
  | none => exact .pure nofun
  | some pair =>
    refine (steady_levels hg hs hstrip).bind fun levels q₁ hgrow₁ hlevels hans => ?_
    refine (steady_sightLevels hg (hs.grow hgrow₁) hlevels _ []).bind ?_
    intro seen q₂ hgrow₂ hseen _
    refine .pure fun hv => ⟨candidates_ne_nil hv, fun c hc => ?_⟩
    obtain ⟨g, hgs, rfl, hverdict⟩ := Lookup.verdict_of_mem_ofSightings hc
    have hview : g.verdict = .viable := hverdict.trans (eq_of_beq hv)
    obtain ⟨level, hlevel, m, hm⟩ := hseen g hgs
    refine ⟨m, hm.found, hm.ty, hm.params, hm.admits hview, fun hk => ?_⟩
    have hlater : Later good q.types q₂.types := ⟨(hgrow₁.trans hgrow₂).le, .inr hk⟩
    refine ⟨⟨levels, level, ?_, hlevel, hm.declares hk⟩, hm.accessible hview hk⟩
    have hsame : TypeTable.strip (HasTypes.types q₂) ty = q.types.strip ty := hlater.strip_eq hty
    rw [hsame]
    exact (hans hk).mono hgrow₂.le

end Lookup

end UpdateExpr
