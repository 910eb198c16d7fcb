import UpdateExpr.Proofs.Symbol.Agree

/-!
# Lookups agree

Members that are looked for in like types are seen with like types. What hides a member, and the
verdict on it, depends on signatures and on the code that asks; signatures are equal on the one side
where they are on the other, so that the same members are seen and the same verdicts are passed.

## Main definitions

* `LikeCandidates`, `LikeSightings`, `LikeLookups`: members that are seen for like types

## Main results

* `agree_sight`: a member that is seen from a level
* `agree_lookup`: the outcome for a type
-/

namespace UpdateExpr

/-- The same member, with like types. -/
structure LikeCandidates (w : Tables) (c c' : Candidate) : Prop where
  member : c.member = c'.member
  ty : Alike w c.ty c'.ty
  params : List.Forall₂ (Alike w) c.params c'.params

/-- Signatures with like types. -/
structure LikeSignatures (w : Tables) (g g' : Signature) : Prop where
  arity : g.arity = g'.arity
  params : List.Forall₂ (Alike w) g.params g'.params

/-- The same member was seen, with the same verdict and with like types. -/
structure LikeSightings (w : Tables) (g g' : Sighting) : Prop where
  verdict : g.verdict = g'.verdict
  candidate : LikeCandidates w g.candidate g'.candidate
  signature? : Option.Rel (LikeSignatures w) g.signature? g'.signature?

/-- The same verdict was reached by the same members, with like types. -/
structure LikeLookups (w : Tables) (l l' : Lookup) : Prop where
  verdict : l.verdict = l'.verdict
  candidates : List.Forall₂ (LikeCandidates w) l.candidates l'.candidates

section Lookup

variable {s : SymbolTable} {query : LookupQuery} {q q' : QueryState} {w w' : Tables}
  {ty ty' : TypeId}

theorem lasting_likeCandidates : Lasting LikeCandidates :=
  fun _ _ _ _ h hle => ⟨h.member, h.ty.mono hle, lasting_alike.each h.params hle⟩

theorem lasting_likeSignatures : Lasting LikeSignatures :=
  fun _ _ _ _ h hle => ⟨h.arity, lasting_alike.each h.params hle⟩

theorem lasting_likeSightings : Lasting LikeSightings :=
  fun _ _ _ _ h hle => ⟨h.verdict, lasting_likeCandidates h.candidate hle,
    lasting_likeSignatures.maybe h.signature? hle⟩

/-! ## Verdicts -/

theorem agree_isAccessible (hs : s.Shared (q.both q')) (m : Member) (asking? : Option DefId) :
    Agree Equal (s.isAccessible m asking?) (s.isAccessible m asking?) q q' := by
  unfold SymbolTable.isAccessible
  split
  · exact .pure rfl
  · exact .pure rfl
  · exact agree_derivesFromDefinition hs _ _
  · exact .pure rfl

theorem agree_judge (hs : s.Shared (q.both q')) (m : Member) :
    Agree Equal (s.judge query m) (s.judge query m) q q' := by
  unfold SymbolTable.judge
  split
  · exact .pure rfl
  split
  · exact .pure rfl
  split
  · exact .pure rfl
  refine (agree_isAccessible hs m query.asking?).bind ?_
  rintro accessible _ q₁ q₁' - rfl
  split
  · exact .pure rfl
  · exact .pure rfl

/-! ## Sightings -/

/-- Signatures are equal on the one side where they are on the other. -/
theorem biUnique_likeSignatures (w : Tables) : Relator.BiUnique (LikeSignatures w) := by
  have hparams := (biUnique_alike w).forall₂
  constructor
  · rintro ⟨arity, params⟩ ⟨arity', params'⟩ g h h'
    obtain rfl : arity = arity' := h.arity.trans h'.arity.symm
    obtain rfl : params = params' := hparams.1 h.params h'.params
    rfl
  · rintro g ⟨arity, params⟩ ⟨arity', params'⟩ h h'
    obtain rfl : arity = arity' := h.arity.symm.trans h'.arity
    obtain rfl : params = params' := hparams.2 h.params h'.params
    rfl

theorem isHidden_eq {inClass : Bool} {above above' : List Signature}
    {signature? signature?' : Option Signature}
    (ha : List.Forall₂ (LikeSignatures w) above above')
    (hg : Option.Rel (LikeSignatures w) signature? signature?') :
    SymbolTable.isHidden inClass above signature? =
      SymbolTable.isHidden inClass above' signature?' := by
  cases hg with
  | none =>
    cases ha <;> rfl
  | some hg =>
    rw [SymbolTable.isHidden, SymbolTable.isHidden]
    congr 1
    rw [Bool.eq_iff_iff, List.contains_iff_mem, List.contains_iff_mem]
    exact List.rel_mem (biUnique_likeSignatures w) hg ha

/-- **A member that is seen from a level.** -/
theorem agree_sight {σ σ' : Substitution} (hs : s.Shared (q.both q'))
    (hσ : Substitution.Matches (q.both q') σ σ') {inClass : Bool} {above above' : List Signature}
    (ha : List.Forall₂ (LikeSignatures (q.both q')) above above') (id : MemberId) :
    Agree (Maybe LikeSightings) (s.sight query inClass above σ id)
      (s.sight query inClass above' σ' id) q q' := by
  unfold SymbolTable.sight
  cases hm : s.member? id with
  | none => exact .pure .none
  | some m =>
    have hparams : List.Forall₂ (Alike (q.both q')) m.parameters m.parameters :=
      List.forall₂_same.2 fun ty hp => hs ty (.parameter hm hp)
    refine (Agree.lift (agree_instantiateAll hσ hparams (le_refl _))).bind ?_
    intro params params' q₁ q₁' hle₁ hparams
    have hsig : Option.Rel (LikeSignatures (q₁.both q₁'))
        (if m.isMethod then some ⟨m.arity, params⟩ else none)
        (if m.isMethod then some ⟨m.arity, params'⟩ else none) := by
      split
      · exact .some ⟨rfl, hparams⟩
      · exact .none
    generalize (if m.isMethod then some ⟨m.arity, params⟩ else none : Option Signature) = g?,
      (if m.isMethod then some ⟨m.arity, params'⟩ else none : Option Signature) = g?' at hsig
    dsimp only
    rw [isHidden_eq (lasting_likeSignatures.each ha hle₁) hsig]
    split
    · exact .pure .none
    refine (agree_judge (hs.mono hle₁) m).bind ?_
    rintro verdict _ q₂ q₂' hle₂ rfl
    have hle := hle₁.trans hle₂
    refine (Agree.lift (agree_instantiate (hσ.mono hle) ((hs _ (.value hm)).mono hle))).bind ?_
    intro ty ty' q₃ q₃' hle₃ hty
    have hlast := hle₂.trans hle₃
    exact .pure (.some ⟨rfl, ⟨rfl, hty, lasting_alike.each hparams hlast⟩,
      lasting_likeSignatures.maybe hsig hlast⟩)

/-- The type arguments of like types are alike. -/
theorem Alike.ofType {t t' : TypeTable} (h : Alike (t, t') ty ty') :
    Substitution.Matches (t, t') (.ofType t ty) (.ofType t' ty') := by
  rw [Substitution.ofType, Substitution.ofType]
  rcases h.defAndArgs?_cases with ⟨hd, hd'⟩ | ⟨d, args, args', hd, hd', hargs⟩
  · rw [hd, hd']
    exact ⟨rfl, .nil⟩
  · rw [hd, hd']
    cases hargs with
    | nil => exact ⟨rfl, .nil⟩
    | cons harg hargs => exact ⟨rfl, .cons harg hargs⟩

/-- What is seen on one level. -/
theorem agree_sightLevel (hs : s.Shared (q.both q')) {level level' : TypeId}
    (hl : Alike (q.both q') level level') {inClass : Bool} {above above' : List Signature}
    (ha : List.Forall₂ (LikeSignatures (q.both q')) above above') :
    Agree (Each LikeSightings) (s.sightLevel query inClass above level)
      (s.sightLevel query inClass above' level') q q' := by
  refine Agree.ofTypes ?_
  rcases hl.defAndArgs?_cases with ⟨hd, hd'⟩ | ⟨d, args, args', hd, hd', -⟩
  · rw [hd, hd']
    exact .pure .nil
  · rw [hd, hd']
    have hσ := hl.ofType
    refine Agree.filterMapM lasting_likeSightings (forall₂_eq_self _) ?_
    rintro id _ rfl q₁ q₁' hle
    exact agree_sight (hs.mono hle) (hσ.mono hle) (lasting_likeSignatures.each ha hle) id

theorem agree_sightLevels (hs : s.Shared (q.both q')) {levels levels' : List TypeId}
    (hl : List.Forall₂ (Alike w) levels levels') (hw : w ≤ q.both q') {inClass : Bool}
    {above above' : List Signature}
    (ha : List.Forall₂ (LikeSignatures (q.both q')) above above') :
    Agree (Each LikeSightings) (s.sightLevels query inClass above levels)
      (s.sightLevels query inClass above' levels') q q' := by
  induction hl generalizing above above' q q' with
  | nil => exact .pure .nil
  | cons hlevel _ ih =>
    refine (agree_sightLevel hs (hlevel.mono hw) ha).bind fun seen seen' q₁ q₁' hle₁ hseen => ?_
    have hfields : seen.any (·.signature?.isNone) = seen'.any (·.signature?.isNone) :=
      rel_any hseen fun g g' hg => by
        obtain ⟨-, -, hsig⟩ := hg
        generalize g.signature? = x, g'.signature? = x' at hsig
        cases hsig <;> rfl
    rw [hfields]
    split
    · exact .pure hseen
    have hmethods : List.Forall₂ (LikeSignatures (q₁.both q₁'))
        (seen.filterMap (·.signature?)) (seen'.filterMap (·.signature?)) :=
      List.rel_filterMap (fun _ _ hg => hg.signature?) hseen
    refine (ih (hs.mono hle₁) (hw.trans hle₁)
      (List.rel_append (lasting_likeSignatures.each ha hle₁) hmethods)).bind ?_
    intro rest rest' q₂ q₂' hle₂ hrest
    exact .pure (List.rel_append (lasting_likeSightings.each hseen hle₂) hrest)

theorem agree_levels (hs : s.Shared (q.both q')) (hty : Alike (q.both q') ty ty') :
    Agree (Each Alike) (s.levels ty) (s.levels ty') q q' := by
  refine Agree.ofTypes ?_
  have hi : s.isInterface q.types ty = s.isInterface q'.types ty' := hty.isInterface_eq s
  rw [hi]
  split
  · exact agree_interfaceClosure hs hty
  · exact agree_baseChain hs hty

/-! ## Outcomes -/

theorem likeLookups_ofSightings {seen seen' : List Sighting}
    (h : List.Forall₂ (LikeSightings w) seen seen') :
    LikeLookups w (.ofSightings seen) (.ofSightings seen') := by
  have hverdicts : seen.map (·.verdict) = seen'.map (·.verdict) := by
    rw [← List.forall₂_eq_eq_eq]
    exact List.rel_map (fun _ _ hg => hg.verdict) h
  unfold Lookup.ofSightings
  dsimp only
  rw [hverdicts]
  refine ⟨rfl, List.rel_map (fun _ _ hg => hg.candidate) (List.rel_filter ?_ h)⟩
  intro g g' hg
  dsimp only
  rw [hg.verdict]

/-- **Lookup agrees.** -/
theorem agree_lookup (hs : s.Shared (q.both q')) (hty : Alike (q.both q') ty ty') :
    Agree LikeLookups (s.lookup ty query) (s.lookup ty' query) q q' := by
  refine Agree.ofTypes ?_
  have hstrip : Alike (q.both q') _ _ := hty.strip
  have hi : s.isInterface q.types (q.types.strip ty) =
    s.isInterface q'.types (q'.types.strip ty') := hstrip.isInterface_eq s
  dsimp only
  rw [hi]
  rcases hstrip.defAndArgs?_cases with ⟨hd, hd'⟩ | ⟨d, args, args', hd, hd', -⟩
  · rw [hd, hd']
    exact .pure ⟨rfl, .nil⟩
  · rw [hd, hd']
    refine (agree_levels hs hstrip).bind fun levels levels' q₁ q₁' hle hlevels => ?_
    refine (agree_sightLevels (hs.mono hle) hlevels (le_refl _) .nil).bind ?_
    intro seen seen' q₂ q₂' _ hseen
    exact .pure (likeLookups_ofSightings hseen)

end Lookup

end UpdateExpr
