import UpdateExpr.Proofs.Symbol.Conversion
import UpdateExpr.Proofs.Ty.Agree
import UpdateExpr.Symbol.Display

/-!
# Questions about symbols agree

What is asked of the symbols about like types of two tables has like answers, and leaves the same
notes: the names, the ways up from a type, and the conversion from one type to another. The types
that the symbols themselves mention are known to both tables.

## Main definitions

* `SymbolTable.Shared`: both tables know the types of the symbols, under the same handles

## Main results

* `Alike.displayType_eq`: the name of a type
* `agree_baseChain`, `agree_interfaceClosure`: the ways up from a type
* `agree_classify`: the conversion from one type to another
-/

namespace UpdateExpr

/-- The tables of two questions. -/
abbrev QueryState.both (q q' : QueryState) : Tables :=
  (q.types, q'.types)

/-- Both tables know the types of the symbols, under the same handles. -/
def SymbolTable.Shared (s : SymbolTable) (w : Tables) : Prop :=
  ∀ ty, s.Uses ty → Alike w ty ty

section Symbols

variable {s : SymbolTable} {q q' : QueryState} {w w' : Tables} {ty ty' target target' : TypeId}

theorem SymbolTable.Shared.mono (h : s.Shared w) (hle : w ≤ w') : s.Shared w' :=
  fun ty hty => (h ty hty).mono hle

/-! ## Names -/

theorem Alike.isInterface_eq (h : Alike w ty ty') (s : SymbolTable) :
    s.isInterface w.1 ty = s.isInterface w.2 ty' := by
  rw [SymbolTable.isInterface, SymbolTable.isInterface]
  rcases h.strip.defAndArgs?_cases with ⟨hd, hd'⟩ | ⟨d, args, args', hd, hd', -⟩
  · rw [hd, hd']
  · rw [hd, hd']

theorem Alike.ofNull_eq (h : Alike w ty ty') :
    Conversion.ofNull w.1 ty = Conversion.ofNull w.2 ty' := by
  rw [Conversion.ofNull, Conversion.ofNull, h.isError_eq, h.isReference_eq,
    h.isSome_nullableInner?_eq]

/-- **The name of a type does not depend on the table.** -/
theorem Alike.displayType_eq (h : Alike w ty ty') (s : SymbolTable) :
    s.displayType w.1 ty = s.displayType w.2 ty' := by
  rw [SymbolTable.displayType, SymbolTable.displayType, h.tree]

/-- The name of a member does not depend on the table. -/
theorem SymbolTable.Shared.displayMember_eq (hs : s.Shared w) (id : MemberId) :
    s.displayMember w.1 id = s.displayMember w.2 id := by
  unfold SymbolTable.displayMember
  cases hm : s.member? id with
  | none => rfl
  | some m =>
    have hparams : m.parameters.map (s.displayType w.1) = m.parameters.map (s.displayType w.2) :=
      List.map_congr_left fun ty hp => (hs ty (.parameter hm hp)).displayType_eq s
    dsimp only
    rw [hparams]

/-! ## Bases and interfaces -/

theorem agree_baseType (hs : s.Shared (q.both q')) (hty : Alike (q.both q') ty ty') :
    Agree (Maybe Alike) (s.baseType ty) (s.baseType ty') q q' := by
  have nothing : ∀ q q' : QueryState, Agree (Maybe Alike) (pure none) (pure none) q q' :=
    fun q q' => .pure .none
  refine Agree.ofTypes ?_
  rcases hty.defAndArgs?_cases with ⟨hd, hd'⟩ | ⟨d, args, args', hd, hd', hargs⟩
  · rw [hd, hd']
    exact nothing q q'
  · rw [hd, hd']
    dsimp only
    cases hc : s.definition? d with
    | none => exact nothing q q'
    | some c =>
      dsimp only
      split
      · exact nothing q q'
      · cases hu : c.unresolvedBase? with
        | some missing => exact Agree.note.bind fun _ _ q₁ q₁' _ _ => nothing q₁ q₁'
        | none =>
          cases hb : c.base? with
          | none => exact .pure (.some (alike_id _ .object))
          | some base =>
            have hσ : Substitution.Matches (q.both q') ⟨some d, args⟩ ⟨some d, args'⟩ :=
              ⟨rfl, hargs⟩
            refine (Agree.lift (agree_instantiate hσ (hs base (.base hc hb)))).bind ?_
            intro b b' q₁ q₁' _ hb'
            exact .pure (.some hb')

theorem agree_climb {n : Nat} {chain chain' : List TypeId} {last last' : TypeId}
    (hs : s.Shared (q.both q')) (hc : List.Forall₂ (Alike (q.both q')) chain chain')
    (hl : Alike (q.both q') last last') :
    Agree (Each Alike) (s.climb n chain last) (s.climb n chain' last') q q' := by
  induction n generalizing chain chain' last last' q q' with
  | zero => exact .pure hc
  | succ n ih =>
    refine (agree_baseType hs hl).bind fun base base' q₁ q₁' hle hbase => ?_
    have hc₁ := lasting_alike.each hc hle
    cases hbase with
    | none => exact .pure hc₁
    | @some base base' hb =>
      dsimp only
      have hmem : base ∈ chain ↔ base' ∈ chain' := List.rel_mem (biUnique_alike _) hb hc₁
      by_cases hm : base ∈ chain
      · rw [if_pos hm, if_pos (hmem.1 hm)]
        exact .pure hc₁
      · rw [if_neg hm, if_neg fun hm' => hm (hmem.2 hm')]
        exact ih (hs.mono hle) (List.rel_append hc₁ (.cons hb .nil)) hb

/-- **The bases of a type.** -/
theorem agree_baseChain (hs : s.Shared (q.both q')) (hty : Alike (q.both q') ty ty') :
    Agree (Each Alike) (s.baseChain ty) (s.baseChain ty') q q' :=
  agree_climb hs (.cons hty .nil) hty

theorem agree_directInterfaces (hs : s.Shared (q.both q')) (hty : Alike (q.both q') ty ty') :
    Agree (Each Alike) (s.directInterfaces ty) (s.directInterfaces ty') q q' := by
  refine Agree.ofTypes ?_
  rcases hty.defAndArgs?_cases with ⟨hd, hd'⟩ | ⟨d, args, args', hd, hd', hargs⟩
  · rw [hd, hd']
    exact .pure .nil
  · rw [hd, hd']
    dsimp only
    cases hc : s.definition? d with
    | none => exact .pure .nil
    | some c =>
      refine Agree.lift (agree_instantiateAll ⟨rfl, hargs⟩ ?_ (le_refl _))
      exact List.forall₂_same.2 fun ty hi => hs ty (.interface hc hi)

theorem agree_spread {n : Nat} {found found' waiting waiting' : List TypeId}
    (hs : s.Shared (q.both q')) (hf : List.Forall₂ (Alike (q.both q')) found found')
    (hw : List.Forall₂ (Alike (q.both q')) waiting waiting') :
    Agree (Each Alike) (s.spread n found waiting) (s.spread n found' waiting') q q' := by
  induction n generalizing found found' waiting waiting' q q' with
  | zero => exact .pure hf
  | succ n ih =>
    unfold SymbolTable.spread
    have hd : List.Forall₂ (Alike (q.both q')) (waiting.dropWhile (· ∈ found))
        (waiting'.dropWhile (· ∈ found')) := by
      refine rel_dropWhile hw fun ty ty' hty => ?_
      rw [decide_eq_decide]
      exact List.rel_mem (biUnique_alike _) hty hf
    generalize waiting.dropWhile _ = rest, waiting'.dropWhile _ = rest' at hd
    cases hd with
    | nil => exact .pure hf
    | cons hty hrest =>
      refine (agree_directInterfaces hs hty).bind fun next next' q₁ q₁' hle hnext => ?_
      refine ih (hs.mono hle) ?_ ?_
      · exact List.rel_append (lasting_alike.each hf hle) (.cons (hty.mono hle) .nil)
      · exact List.rel_append (lasting_alike.each hrest hle) hnext

/-- **The interfaces that are reached from a type.** -/
theorem agree_interfaceClosure (hs : s.Shared (q.both q')) (hty : Alike (q.both q') ty ty') :
    Agree (Each Alike) (s.interfaceClosure ty) (s.interfaceClosure ty') q q' :=
  agree_spread hs .nil (.cons hty .nil)

theorem agree_declaredType (d : DefId) {t t' : TypeTable} :
    Agree Alike (s.declaredType d) (s.declaredType d) t t' := by
  refine (Agree.mapM lasting_alike (forall₂_eq_self _) ?_).bind ?_
  · rintro i _ - rfl t₁ t₁' -
    exact agree_parameter d i
  · intro params params' t₁ t₁' _ hparams
    exact agree_applied d hparams

/-- **Whether a definition derives from another.** -/
theorem agree_derivesFromDefinition (hs : s.Shared (q.both q')) (d target : DefId) :
    Agree Equal (s.derivesFromDefinition d target) (s.derivesFromDefinition d target) q q' := by
  refine (Agree.lift (agree_declaredType d)).bind fun start start' q₁ q₁' hle₁ hstart => ?_
  refine (agree_baseChain (hs.mono hle₁) hstart).bind fun chain chain' q₂ q₂' hle₂ hchain => ?_
  refine Agree.ofTypes (.pure ?_)
  refine rel_any hchain fun ty ty' hty => ?_
  have hty₂ : Alike (q₂.both q₂') ty ty' := hty
  rcases hty₂.defAndArgs?_cases with ⟨hd, hd'⟩ | ⟨d, args, args', hd, hd', -⟩
  · rw [hd, hd']
  · rw [hd, hd']
    rfl

/-! ## Conversions -/

theorem agree_derivesFrom (hs : s.Shared (q.both q')) (hty : Alike (q.both q') ty ty')
    (htarget : Alike (q.both q') target target') (strictness : Strictness) :
    Agree Equal (s.derivesFrom strictness ty target) (s.derivesFrom strictness ty' target')
      q q' := by
  refine Agree.ofTypes ?_
  refine (agree_baseChain hs hty.strip).bind fun chain chain' q₁ q₁' hle hchain => ?_
  refine Agree.ofTypes (.pure ?_)
  exact rel_any hchain fun _ _ hbase => hbase.areIdentical_eq (htarget.mono hle) strictness

theorem agree_implements (hs : s.Shared (q.both q')) (hty : Alike (q.both q') ty ty')
    (htarget : Alike (q.both q') target target') :
    Agree Equal (s.implements ty target) (s.implements ty' target') q q' := by
  refine Agree.ofTypes ?_
  refine (agree_baseChain hs hty.strip).bind fun chain chain' q₁ q₁' hle₁ hchain => ?_
  refine Agree.anyM hchain fun base base' hbase q₂ q₂' hle₂ => ?_
  have hle := hle₁.trans hle₂
  refine (agree_interfaceClosure (hs.mono hle) (hbase.mono hle₂)).bind ?_
  intro closure closure' q₃ q₃' hle₃ hclosure
  refine Agree.ofTypes (.pure ?_)
  exact rel_any hclosure fun _ _ hi => hi.areIdentical_eq (htarget.mono (hle.trans hle₃)) _

theorem agree_classifyReferences (hs : s.Shared (q.both q')) (hty : Alike (q.both q') ty ty')
    (htarget : Alike (q.both q') target target') :
    Agree Equal (s.classifyReferences ty target) (s.classifyReferences ty' target') q q' := by
  refine Agree.ofTypes ?_
  have ha := hty.strip
  have hb := htarget.strip
  have hobject : ∀ {w a a'}, Alike w a a' → (a == .object) = (a' == .object) :=
    fun h => h.beq_eq (alike_id _ .object)
  have hsame : q.types.areIdentical .ignoreNull (q.types.strip ty) (q.types.strip target) =
      q'.types.areIdentical .ignoreNull (q'.types.strip ty') (q'.types.strip target') :=
    ha.areIdentical_eq hb .ignoreNull
  dsimp only
  rw [hsame, hobject ha, hobject hb]
  split
  · exact .pure rfl
  refine Agree.bind (r := Equal) (Agree.orM (.pure rfl) fun q₁ q₁' hle₁ =>
    Agree.orM (agree_derivesFrom (hs.mono hle₁) (ha.mono hle₁) (hb.mono hle₁) _)
      fun q₂ q₂' hle₂ => ?_) ?_
  · have hle := hle₁.trans hle₂
    exact agree_implements (hs.mono hle) (ha.mono hle) (hb.mono hle)
  rintro up _ q₁ q₁' hle₁ rfl
  split
  · exact .pure rfl
  refine Agree.bind (r := Equal) (Agree.orM (.pure rfl) fun q₂ q₂' hle₂ => ?_) ?_
  · have hle := hle₁.trans hle₂
    exact agree_derivesFrom (hs.mono hle) (hb.mono hle) (ha.mono hle) _
  rintro down _ q₂ q₂' hle₂ rfl
  split
  · exact .pure rfl
  have hle := hle₁.trans hle₂
  refine Agree.ofTypes (.pure ?_)
  have hi : s.isInterface q₂.types (q.types.strip ty) =
      s.isInterface q₂'.types (q'.types.strip ty') := (ha.mono hle).isInterface_eq s
  have hi' : s.isInterface q₂.types (q.types.strip target) =
      s.isInterface q₂'.types (q'.types.strip target') := (hb.mono hle).isInterface_eq s
  show _ = _
  rw [hi, hi']

/-- **Limits that two types do not reach give the same conversion.** -/
theorem agree_classifyWithin {n m m' : Nat} (hs : s.Shared (q.both q'))
    (hty : Alike (q.both q') ty ty') (htarget : Alike (q.both q') target target')
    (hn : q.types.Peels n ty) (hn' : q.types.Peels n target) (hm : n < m) (hm' : n < m') :
    Agree Equal (s.classifyWithin m ty target) (s.classifyWithin m' ty' target') q q' := by
  induction m generalizing n m' ty ty' target target' with
  | zero => cases hm
  | succ k ih =>
    obtain ⟨k', rfl⟩ : ∃ k', m' = k' + 1 := ⟨m' - 1, by omega⟩
    refine Agree.ofTypes ?_
    have hreference : q.types.isReference ty = q'.types.isReference ty' := hty.isReference_eq
    have hreference' : q.types.isReference target = q'.types.isReference target' :=
      htarget.isReference_eq
    have hintrinsic : q.types.intrinsic? ty = q'.types.intrinsic? ty' := hty.intrinsic?_eq
    have hintrinsic' : q.types.intrinsic? target = q'.types.intrinsic? target' :=
      htarget.intrinsic?_eq
    rw [hty.isError_eq, htarget.isError_eq, hty.beq_eq htarget, hreference, hreference',
      hintrinsic, hintrinsic']
    split
    · exact .pure rfl
    split
    · exact agree_classifyReferences hs hty htarget
    split
    · exact .pure rfl
    -- Only here does the limit go down: `null` is taken away from the target and the source, or
    -- from the source alone where the target has none.
    rcases htarget.nullableInner?_cases with ⟨hi, hi'⟩ | ⟨inner, inner', hi, hi', hinner⟩
    · rw [hi, hi']
      rcases hty.nullableInner?_cases with ⟨hj, hj'⟩ | ⟨inner, inner', hj, hj', hinner⟩
      · rw [hj, hj']
        exact .pure rfl
      · rw [hj, hj']
        cases n with
        | zero => simp [TypeTable.Peels, hj] at hn
        | succ n =>
          have hpeels : q.types.Peels n target := by
            cases n with
            | zero => exact hi
            | succ n => simp [TypeTable.Peels, hi]
          refine (ih hinner htarget (hn inner hj) hpeels (by omega) (by omega)).bind ?_
          rintro conversion _ q₁ q₁' - rfl
          exact .pure rfl
    · rw [hi, hi']
      cases n with
      | zero => simp [TypeTable.Peels, hi] at hn'
      | succ n =>
        refine (ih hty.strip hinner (peels_strip hn) (hn' inner hi) (by omega) (by omega)).bind ?_
        rintro conversion _ q₁ q₁' - rfl
        exact .pure rfl

/-- **The conversion from one type to another.** -/
theorem agree_classify (hs : s.Shared (q.both q'))
    (hty : Alike (q.both q') ty ty') (htarget : Alike (q.both q') target target') :
    Agree Equal (s.classify ty target) (s.classify ty' target') q q' := by
  refine Agree.ofTypes ?_
  obtain ⟨n, hn, -, hle, hle'⟩ := hty.exists_within
  obtain ⟨m, hm, -, hle₁, hle₁'⟩ := htarget.exists_within
  refine agree_classifyWithin hs hty htarget
    (peels_of_within (hn.of_le (Nat.le_max_left n m)))
    (peels_of_within (hm.of_le (Nat.le_max_right n m))) ?_ ?_
  · exact Nat.lt_succ_of_le (Nat.max_le.2 ⟨hle, hle₁⟩)
  · exact Nat.lt_succ_of_le (Nat.max_le.2 ⟨hle', hle₁'⟩)

end Symbols

end UpdateExpr
