import UpdateExpr.Proofs.Symbol.Upward

/-!
# Derivation is an order

Where bases lead from class to class without a circle and end within the limit, to be the same as
one of the bases of a type, up to `null`, is an order on types. Two types that are the same up to
`null` may be applied to arguments that are not the same. So what stands above them is followed side
by side: equal up to `null` at each step, since bases come by substitution. And no type stands above
itself but at the start, since the definitions would lead in a circle.

## Main definitions

* `Ty.Parallel`: two trees that are no `null` themselves are the same up to `null`
* `SymbolTable.BaseLinks`: a definition has the other one as its base
* `SymbolTable.Ranked`: the bases of a symbol table are in order

## Main results

* `exists_ancestor_parallel`: bases of trees that are the same are the same, side by side
* `SymbolTable.Ranked.ancestor_antisymm`: bases lead one way
* `SymbolTable.Ranked.encard_ancestor_le`: a type has few ancestors where there are few definitions
* `derivesFrom_order`: derivation is reflexive, transitive and, up to `null`, antisymmetric
-/

namespace UpdateExpr

namespace Ty

/-- The definition that a tree applies. -/
def head? (ty : Ty) : Option DefId :=
  ty.defAndArgs?.map (·.1)

/-- Two trees, of which neither has `null` at the top, are the same up to `null`. -/
structure Parallel (x y : Ty) : Prop where
  left : ∀ inner, x ≠ .nullable inner
  right : ∀ inner, y ≠ .nullable inner
  same : x.withoutNull = y.withoutNull

variable {x y z ty : Ty} {f g : DefId → Nat → Ty} {d : DefId} {args args' : List Ty}

theorem Parallel.symm (h : x.Parallel y) : y.Parallel x :=
  ⟨h.right, h.left, h.same.symm⟩

theorem Parallel.trans (h : x.Parallel y) (h' : y.Parallel z) : x.Parallel z :=
  ⟨h.left, h'.right, h.same.trans h'.same⟩

/-- A tree that has no `null` at the top shows its definition without `null` as well. -/
theorem defAndArgs?_withoutNull (h : ∀ inner, x ≠ .nullable inner) :
    x.withoutNull.defAndArgs? =
      x.defAndArgs?.map fun (d, args) => (d, args.map withoutNull) := by
  cases x with
  | nullable inner => exact absurd rfl (h inner)
  | applied d args => rw [withoutNull_applied]; rfl
  | _ => rfl

/-- Trees that are the same apply one definition to arguments that are the same, or none. -/
theorem Parallel.defAndArgs?_cases (h : x.Parallel y) :
    x.defAndArgs? = none ∧ y.defAndArgs? = none ∨ ∃ d args args',
      x.defAndArgs? = some (d, args) ∧ y.defAndArgs? = some (d, args') ∧
        args.map withoutNull = args'.map withoutNull := by
  have hsame := congrArg defAndArgs? h.same
  rw [defAndArgs?_withoutNull h.left, defAndArgs?_withoutNull h.right] at hsame
  cases hx : x.defAndArgs? with
  | none =>
    rw [hx] at hsame
    exact .inl ⟨rfl, Option.map_eq_none_iff.1 hsame.symm⟩
  | some pair =>
    obtain ⟨d, args⟩ := pair
    cases hy : y.defAndArgs? with
    | none =>
      rw [hx, hy] at hsame
      cases hsame
    | some pair' =>
      obtain ⟨d', args'⟩ := pair'
      rw [hx, hy] at hsame
      obtain ⟨rfl, hargs⟩ := Prod.mk.inj (Option.some.inj hsame)
      exact .inr ⟨d, args, args', rfl, rfl, hargs⟩

theorem Parallel.head?_eq (h : x.Parallel y) : x.head? = y.head? := by
  unfold head?
  rcases h.defAndArgs?_cases with ⟨hx, hy⟩ | ⟨d, args, args', hx, hy, -⟩
  · rw [hx, hy]
  · rw [hx, hy]
    rfl

/-- **Substitutions that are the same up to `null` give what is the same up to `null`.** -/
theorem withoutNull_subst_congr
    (h : ∀ owner index, (f owner index).withoutNull = (g owner index).withoutNull) (ty : Ty) :
    (ty.subst f).withoutNull = (ty.subst g).withoutNull := by
  induction ty using Ty.ind with
  | unknown ty => rfl
  | intrinsic k => rfl
  | plain d => rfl
  | applied d args ih =>
    rw [subst_applied, subst_applied, withoutNull_applied, withoutNull_applied, List.map_map,
      List.map_map]
    exact congrArg (Ty.applied d) (List.map_congr_left ih)
  | parameter owner index => exact h owner index
  | nullable inner ih =>
    rw [subst_nullable, subst_nullable, withoutNull_addNull, withoutNull_addNull, ih]

/-- Arguments that are the same up to `null` put the same in the place of parameters. -/
theorem withoutNull_argTree_congr (h : args.map withoutNull = args'.map withoutNull) (d : DefId)
    (owner : DefId) (index : Nat) : (argTree d args owner index).withoutNull =
      (argTree d args' owner index).withoutNull := by
  unfold argTree
  by_cases hd : d = owner
  · have hindex := congrArg (·[index]?) h
    rw [List.getElem?_map, List.getElem?_map] at hindex
    rw [if_pos hd, if_pos hd]
    cases ha : args[index]? with
    | none =>
      rw [ha] at hindex
      rw [Option.map_eq_none_iff.1 hindex.symm]
    | some arg =>
      rw [ha] at hindex
      obtain ⟨arg', ha', hsame⟩ := Option.map_eq_some_iff.1 hindex.symm
      rw [ha']
      exact hsame.symm
  · rw [if_neg hd, if_neg hd]

/-- To put arguments in the place of parameters keeps the definition of a tree. -/
theorem head?_subst (h : ty.head? = some d) : (ty.subst f).head? = some d := by
  cases ty with
  | plain e => exact h
  | applied e args => rw [subst_applied]; exact h
  | _ => cases h

end Ty

section Derivation

variable {s : SymbolTable} {t : TypeTable} {q : QueryState} {a b : TypeId} {x y z x' : Ty}
  {d e : DefId}

theorem head?_expand (h : t.Normal a) : (t.expand a).head? = t.head? a := by
  rw [Ty.head?, defAndArgs?_expand h, head?_eq_map, Option.map_map]
  rfl

/-- A definition declares a base that applies another one. -/
def SymbolTable.BaseLinks (s : SymbolTable) (t : TypeTable) (d e : DefId) : Prop :=
  ∃ c base, s.definition? d = some c ∧ c.declaredBase? = some base ∧ t.head? base = some e

/-- The bases of a symbol table are in order: each is `object` or applies a definition, and no
definition leads back to itself. -/
structure SymbolTable.Ranked (s : SymbolTable) (t : TypeTable) : Prop where
  normal : s.NormalBases t
  base : ∀ {d c base}, s.definition? d = some c → c.declaredBase? = some base →
    base = .object ∨ (t.head? base).isSome
  acyclic : ∀ d, ¬ Relation.TransGen (s.BaseLinks t) d d

theorem SymbolTable.BaseLinks.links (h : s.BaseLinks t d e) : s.Links t d e := by
  obtain ⟨c, base, hc, hb, he⟩ := h
  rcases base_of_declaredBase? hb with hdecl | rfl
  · exact ⟨c, base, hc, .inl hdecl, he⟩
  · rw [head?_object] at he
    cases he

/-- Where all links are in order, the bases are, if their types are in normal form. -/
theorem SymbolTable.Ordered.ranked (hs : s.Ordered t) (hn : s.NormalBases t) : s.Ranked t where
  normal := hn
  base {d c base} hc hb := by
    rcases base_of_declaredBase? hb with hdecl | rfl
    · refine (hs.base hc hdecl).2.imp_right ?_
      rintro ⟨e, -, he, -⟩
      exact Option.isSome_iff_exists.2 ⟨e, he⟩
    · exact .inl rfl
  acyclic d h := hs.acyclic d (Relation.TransGen.mono (fun _ _ hlink => hlink.links) d d h)

/-! ## Side by side -/

/-- **One step**: the bases of trees that are the same are the same. -/
theorem withoutNull_baseTree (h : x.Parallel x') :
    (s.baseTree t x).map Ty.withoutNull = (s.baseTree t x').map Ty.withoutNull := by
  unfold SymbolTable.baseTree
  rcases h.defAndArgs?_cases with ⟨hx, hx'⟩ | ⟨d, args, args', hx, hx', hargs⟩
  · rw [hx, hx']
  · rw [hx, hx']
    dsimp only
    rw [Option.map_map, Option.map_map]
    congr 1
    funext base
    exact Ty.withoutNull_subst_congr (Ty.withoutNull_argTree_congr hargs d) _

/-- A tree that has a base applies a definition, and the base is `object` or what the definition
links to. -/
theorem SymbolTable.Ranked.derives_cases (hs : s.Ranked t) (h : s.Derives t x y) :
    ∃ d, x.head? = some d ∧
      (y = .intrinsic .object ∨ ∃ e, y.head? = some e ∧ s.BaseLinks t d e) := by
  unfold SymbolTable.Derives SymbolTable.baseTree at h
  cases hx : x.defAndArgs? with
  | none =>
    rw [hx] at h
    cases h
  | some pair =>
    obtain ⟨d, args⟩ := pair
    rw [hx] at h
    obtain ⟨base, hb, rfl⟩ := Option.map_eq_some_iff.1 h
    obtain ⟨c, hc, hb⟩ := Option.bind_eq_some_iff.1 hb
    refine ⟨d, by rw [Ty.head?, hx]; rfl, ?_⟩
    have hnormal := hs.normal hc hb
    rcases hs.base hc hb with rfl | hhead
    · left
      rw [show t.expand .object = _ from t.expand_id .object]
      rfl
    · right
      obtain ⟨e, he⟩ := Option.isSome_iff_exists.1 hhead
      refine ⟨e, Ty.head?_subst ?_, c, base, hc, hb, he⟩
      rw [head?_expand hnormal, he]

/-- A base has no `null` at the top. -/
theorem SymbolTable.Ranked.ne_nullable (hs : s.Ranked t) (h : s.Derives t x y) (inner : Ty) :
    y ≠ .nullable inner := by
  rintro rfl
  obtain ⟨d, -, hobject | ⟨e, he, -⟩⟩ := hs.derives_cases h
  · cases hobject
  · cases he

/-- **Ancestors of trees that are the same are the same**, side by side. -/
theorem exists_ancestor_parallel (hs : s.Ranked t) (h : s.Ancestor t x y) (hx : x.Parallel x') :
    ∃ y', s.Ancestor t x' y' ∧ y.Parallel y' := by
  induction h with
  | refl => exact ⟨x', .refl, hx⟩
  | @tail y z _ hz ih =>
    obtain ⟨y', hy', hparallel⟩ := ih
    have hbases := withoutNull_baseTree (s := s) (t := t) hparallel
    rw [show s.baseTree t y = some z from hz] at hbases
    obtain ⟨z', hz', hsame⟩ := Option.map_eq_some_iff.1 hbases.symm
    exact ⟨z', hy'.tail hz', hs.ne_nullable hz, hs.ne_nullable hz', hsame.symm⟩

/-! ## One way -/

/-- An ancestor is the tree itself, or `object`, or applies a definition that is linked to. -/
theorem SymbolTable.Ranked.ancestor_cases (hs : s.Ranked t) (h : s.Ancestor t x y) :
    x = y ∨ ∃ d, x.head? = some d ∧ (y = .intrinsic .object ∨
      ∃ e, y.head? = some e ∧ Relation.TransGen (s.BaseLinks t) d e) := by
  induction h with
  | refl => exact .inl rfl
  | @tail y z _ hz ih =>
    right
    obtain ⟨e, he, hcases⟩ := hs.derives_cases hz
    rcases ih with rfl | ⟨d, hd, rfl | ⟨e', he', hlinks⟩⟩
    · refine ⟨e, he, hcases.imp_right ?_⟩
      rintro ⟨f, hf, hlink⟩
      exact ⟨f, hf, .single hlink⟩
    · cases he
    · obtain rfl := Option.some.inj (he'.symm.trans he)
      refine ⟨d, hd, hcases.imp_right ?_⟩
      rintro ⟨f, hf, hlink⟩
      exact ⟨f, hf, hlinks.tail hlink⟩

/-- An ancestor that applies the same definition is the tree itself. -/
theorem SymbolTable.Ranked.eq_of_head? (hs : s.Ranked t) (h : s.Ancestor t x y)
    (hhead : y.head? = x.head?) : x = y := by
  rcases hs.ancestor_cases h with rfl | ⟨d, hd, rfl | ⟨e, he, hlinks⟩⟩
  · rfl
  · rw [hd] at hhead
    cases hhead
  · rw [hd, he] at hhead
    cases hhead
    exact absurd hlinks (hs.acyclic d)

/-- **Bases lead one way.** -/
theorem SymbolTable.Ranked.ancestor_antisymm (hs : s.Ranked t) (h : s.Ancestor t x y)
    (h' : s.Ancestor t y x) : x = y := by
  rcases hs.ancestor_cases h with rfl | ⟨d, hd, hy⟩
  · rfl
  rcases hs.ancestor_cases h' with rfl | ⟨e, he, hx⟩
  · rfl
  rcases hy with rfl | ⟨e', he', hup⟩
  · cases he
  rcases hx with rfl | ⟨d', hd', hdown⟩
  · cases hd
  obtain rfl := Option.some.inj (he'.symm.trans he)
  obtain rfl := Option.some.inj (hd'.symm.trans hd)
  exact absurd (hup.trans hdown) (hs.acyclic d')

/-- Of two ancestors of a tree, one is an ancestor of the other. -/
theorem ancestor_total (h : s.Ancestor t x y) (h' : s.Ancestor t x z) :
    s.Ancestor t y z ∨ s.Ancestor t z y :=
  Relation.ReflTransGen.total_of_right_unique
    (fun _ _ _ hb hb' => Option.some.inj (hb.symm.trans hb')) h h'

/-- A tree without a base is its own only ancestor. -/
theorem eq_of_ancestor_of_baseTree_eq_none (h : s.Ancestor t x y) (hx : s.baseTree t x = none) :
    x = y := by
  rcases Relation.ReflTransGen.cases_head h with rfl | ⟨z, hz, -⟩
  · rfl
  · exact absurd (hx.symm.trans hz) nofun

/-- The definition of a tree that has a base is there. -/
theorem index_lt_of_baseTree (h : (s.baseTree t x).isSome) :
    ∃ d, x.head? = some d ∧ d.index < s.definitions.size := by
  unfold SymbolTable.baseTree at h
  cases hx : x.defAndArgs? with
  | none =>
    rw [hx] at h
    cases h
  | some pair =>
    obtain ⟨d, args⟩ := pair
    rw [hx] at h
    dsimp only at h
    rw [Option.isSome_map, Option.isSome_iff_exists] at h
    obtain ⟨base, hb⟩ := h
    obtain ⟨c, hc, -⟩ := Option.bind_eq_some_iff.1 hb
    exact ⟨d, by rw [Ty.head?, hx]; rfl, (Array.getElem?_eq_some_iff.1 hc).1⟩

/-- **A type has at most one ancestor more than there are definitions**: each ancestor that has a
base applies another definition, and only the last one has none. -/
theorem SymbolTable.Ranked.encard_ancestor_le (hs : s.Ranked t) (x : Ty) :
    {y | s.Ancestor t x y}.encard ≤ (s.definitions.size + 1 : ℕ) := by
  let key : Ty → Option DefId := fun y => if (s.baseTree t y).isSome then y.head? else none
  let keys : Finset (Option DefId) :=
    insert none ((Finset.range s.definitions.size).image fun i => some ⟨i⟩)
  have hinj : Set.InjOn key {y | s.Ancestor t x y} := by
    intro y hy z hz hkey
    have hsame : ∀ {y z}, s.Ancestor t y z → key y = key z → y = z := by
      intro y z hyz hkey
      cases hby : s.baseTree t y with
      | none => exact eq_of_ancestor_of_baseTree_eq_none hyz hby
      | some base =>
        have hkeyy : key y = y.head? := if_pos (by rw [hby]; rfl)
        obtain ⟨d, hd, -⟩ := index_lt_of_baseTree (s := s) (t := t) (x := y) (by rw [hby]; rfl)
        rw [hkeyy, hd] at hkey
        by_cases hbz : (s.baseTree t z).isSome
        · have hkeyz : key z = z.head? := if_pos hbz
          exact hs.eq_of_head? hyz (by rw [hd, hkey, hkeyz])
        · have hkeyz : key z = none := if_neg hbz
          rw [hkeyz] at hkey
          cases hkey
    rcases ancestor_total hy hz with hyz | hzy
    · exact hsame hyz hkey
    · exact (hsame hzy hkey.symm).symm
  have hmaps : key '' {y | s.Ancestor t x y} ⊆ keys := by
    rintro _ ⟨y, -, rfl⟩
    by_cases hb : (s.baseTree t y).isSome
    · obtain ⟨d, hd, hlt⟩ := index_lt_of_baseTree hb
      have hkey : key y = some d := (if_pos hb).trans hd
      rw [hkey]
      exact Finset.mem_insert_of_mem (Finset.mem_image.2 ⟨d.index, Finset.mem_range.2 hlt, rfl⟩)
    · have hkey : key y = none := if_neg hb
      rw [hkey]
      exact Finset.mem_insert_self _ _
  have hcard : keys.card ≤ s.definitions.size + 1 :=
    (Finset.card_insert_le _ _).trans
      (Nat.succ_le_succ (Finset.card_image_le.trans_eq (Finset.card_range _)))
  calc {y | s.Ancestor t x y}.encard
      = (key '' {y | s.Ancestor t x y}).encard := hinj.encard_image.symm
    _ ≤ (keys : Set (Option DefId)).encard := Set.encard_le_encard hmaps
    _ = keys.card := Set.encard_coe_eq_coe_finsetCard keys
    _ ≤ (s.definitions.size + 1 : ℕ) := by exact_mod_cast hcard

/-! ## The order -/

/-- The tree of a type without `null` at the top. -/
theorem parallel_strip (h : t.Normal a) :
    (t.expand (t.strip a)).Parallel (t.expand (t.strip a)) := by
  obtain ⟨hnormal, hno, -⟩ := h.strip
  have hne : ∀ inner, t.expand (t.strip a) ≠ .nullable inner := by
    intro inner htree
    obtain ⟨shape, hs, -⟩ := hnormal.interned.shape?
    rw [hnormal.interned.expand_eq hs] at htree
    cases shape with
    | nullable inner' =>
      rw [TypeTable.nullableInner?, hs] at hno
      cases hno
    | _ => cases htree
  exact ⟨hne, hne, rfl⟩

/-- A type derives from another one exactly if one of its ancestors is the same. -/
theorem derivesFrom_iff_parallel (hs : s.Ranked t)
    (hshort : ∀ x : Ty, x.Normal → WithinLimit (s.Derives t) x) (hq : t ≤ q.types)
    (ha : t.Normal a) (hb : t.Normal b) : (s.derivesFrom .ignoreNull a b q).1 = true ↔
      ∃ x, s.Ancestor t (t.expand (t.strip a)) x ∧ x.Parallel (t.expand (t.strip b)) := by
  have hlater : Later TypeTable.Interned t q.types := ⟨hq, .inr id⟩
  have hstrip : q.types.expand (q.types.strip a) = t.expand (t.strip a) := by
    rw [hlater.strip_eq ha.interned, ha.strip.1.interned.expand_eq_of_le hq]
  rw [derivesFrom_iff_ancestor hs.normal hq (ha.mono hq) (hb.mono hq)
    (by rw [hstrip]; exact hshort _ ha.strip.1), hstrip, hb.interned.expand_eq_of_le hq]
  refine exists_congr fun x => and_congr_right fun hx => ?_
  have hne : ∀ inner, x ≠ .nullable inner := by
    rcases Relation.ReflTransGen.cases_tail hx with rfl | ⟨y, -, hy⟩
    · exact (parallel_strip ha).left
    · exact hs.ne_nullable hy
  have hbare : (t.expand (t.strip b)).withoutNull = (t.expand b).withoutNull := hb.strip.2.2
  constructor
  · intro hsame
    exact ⟨hne, (parallel_strip hb).left, hsame.trans hbare.symm⟩
  · intro hparallel
    exact hparallel.same.trans hbare

/-- **Derivation is an order.** Where each base is `object` or applies a definition, where no
definition leads back to itself by bases, and where no type has more ancestors than the limit
allows, derivation up to `null` is reflexive and transitive; and two types that derive from each
other are the same up to `null`. Each question may be asked in a state of its own. -/
theorem derivesFrom_order {s : SymbolTable} {t : TypeTable} (hs : s.Ranked t)
    (hshort : ∀ x : Ty, x.Normal → WithinLimit (s.Derives t) x) :
    (∀ a, t.Normal a → ∀ q : QueryState, t ≤ q.types →
      (s.derivesFrom .ignoreNull a a q).1 = true) ∧
    (∀ a b c, t.Normal a → t.Normal b → t.Normal c → ∀ q q' q'' : QueryState,
      t ≤ q.types → t ≤ q'.types → t ≤ q''.types →
      (s.derivesFrom .ignoreNull a b q).1 = true → (s.derivesFrom .ignoreNull b c q').1 = true →
      (s.derivesFrom .ignoreNull a c q'').1 = true) ∧
    ∀ a b, t.Normal a → t.Normal b → ∀ q q' : QueryState, t ≤ q.types → t ≤ q'.types →
      (s.derivesFrom .ignoreNull a b q).1 = true → (s.derivesFrom .ignoreNull b a q').1 = true →
      t.areIdentical .ignoreNull a b = true := by
  refine ⟨?_, ?_, ?_⟩
  · intro a ha q hq
    rw [derivesFrom_iff_parallel hs hshort hq ha ha]
    exact ⟨_, .refl, parallel_strip ha⟩
  · intro a b c ha hb hc q q' q'' hq hq' hq'' hab hbc
    rw [derivesFrom_iff_parallel hs hshort hq ha hb] at hab
    rw [derivesFrom_iff_parallel hs hshort hq' hb hc] at hbc
    rw [derivesFrom_iff_parallel hs hshort hq'' ha hc]
    obtain ⟨x, hx, hxb⟩ := hab
    obtain ⟨y, hy, hyc⟩ := hbc
    obtain ⟨z, hz, hyz⟩ := exists_ancestor_parallel hs hy hxb.symm
    exact ⟨z, hx.trans hz, hyz.symm.trans hyc⟩
  · intro a b ha hb q q' hq hq' hab hba
    rw [derivesFrom_iff_parallel hs hshort hq ha hb] at hab
    rw [derivesFrom_iff_parallel hs hshort hq' hb ha] at hba
    obtain ⟨x, hx, hxb⟩ := hab
    obtain ⟨y, hy, hya⟩ := hba
    obtain ⟨z, hz, hyz⟩ := exists_ancestor_parallel hs hy hxb.symm
    have hza := hyz.symm.trans hya
    obtain rfl := hs.eq_of_head? (hx.trans hz) hza.head?_eq
    obtain rfl := hs.ancestor_antisymm hx hz
    rw [ha.areIdentical_iff hb, ← ha.strip.2.2, ← hb.strip.2.2]
    exact hxb.same

end Derivation

/-- A class `D` with the base `B<string?>`, and a class `B<T>` with the base `A<T>`. -/
def genericSymbols : SymbolTable where
  definitions := #[
    { name := "D", base? := some ⟨11⟩ },
    { name := "B", typeParams := ["T"], base? := some ⟨9⟩ },
    { name := "A", typeParams := ["T"] }]

/-- The types of these bases, with `D`, `B<string>` and `A<string>`. -/
def genericTypes : TypeTable :=
  let t := (TypeTable.parameter ⟨1⟩ 0 {}).2
  let t := (TypeTable.applied ⟨2⟩ [⟨8⟩] t).2
  let t := (TypeTable.nullable .string t).2
  let t := (TypeTable.applied ⟨1⟩ [⟨10⟩] t).2
  let t := (TypeTable.plain ⟨0⟩ t).2
  let t := (TypeTable.applied ⟨1⟩ [.string] t).2
  (TypeTable.applied ⟨2⟩ [.string] t).2

theorem made_genericTypes : genericTypes.Made := by
  refine .applied (.applied (.plain (.applied (.nullable (.applied (.parameter .empty _ _) _ ?_) ?_)
    _ ?_) _) _ ?_) _ ?_
  all_goals decide +kernel

theorem declaredBase?_genericSymbols {d : DefId} {c : Definition} {base : TypeId}
    (h : genericSymbols.definition? d = some c) (hb : c.declaredBase? = some base) :
    d = ⟨0⟩ ∧ base = ⟨11⟩ ∨ d = ⟨1⟩ ∧ base = ⟨9⟩ ∨ d = ⟨2⟩ ∧ base = .object := by
  obtain ⟨i⟩ := d
  match i, h with
  | 0, h =>
    cases h
    cases hb
    exact .inl ⟨rfl, rfl⟩
  | 1, h =>
    cases h
    cases hb
    exact .inr (.inl ⟨rfl, rfl⟩)
  | 2, h =>
    cases h
    cases hb
    exact .inr (.inr ⟨rfl, rfl⟩)

theorem ranked_genericSymbols : genericSymbols.Ranked genericTypes where
  normal h hb := by
    rcases declaredBase?_genericSymbols h hb with ⟨-, rfl⟩ | ⟨-, rfl⟩ | ⟨-, rfl⟩
    · exact made_genericTypes.normal _ (by decide +kernel)
    · exact made_genericTypes.normal _ (by decide +kernel)
    · exact TypeTable.normal_id _ .object
  base h hb := by
    rcases declaredBase?_genericSymbols h hb with ⟨-, rfl⟩ | ⟨-, rfl⟩ | ⟨-, rfl⟩
    · exact .inr (by decide +kernel)
    · exact .inr (by decide +kernel)
    · exact .inl rfl
  acyclic := by
    apply not_transGen_self_of_index_lt
    rintro d e ⟨c, base, hc, hb, he⟩
    rcases declaredBase?_genericSymbols hc hb with ⟨rfl, rfl⟩ | ⟨rfl, rfl⟩ | ⟨rfl, rfl⟩
    · obtain rfl : (⟨1⟩ : DefId) = e := Option.some.inj
        ((by decide +kernel : genericTypes.head? ⟨11⟩ = some ⟨1⟩).symm.trans he)
      decide
    · obtain rfl : (⟨2⟩ : DefId) = e := Option.some.inj
        ((by decide +kernel : genericTypes.head? ⟨9⟩ = some ⟨2⟩).symm.trans he)
      decide
    · rw [head?_object] at he
      cases he

/-- `D` derives from `B<string>`, since that is `B<string?>` up to `null`, and so from `A<string>`,
which no base of `D` is. -/
theorem derivesFrom_order_of_generic :
    (genericSymbols.Ranked genericTypes ∧
      ∀ x : Ty, x.Normal → WithinLimit (genericSymbols.Derives genericTypes) x) ∧
    (genericSymbols.derivesFrom .ignoreNull ⟨12⟩ ⟨13⟩ { types := genericTypes }).1 = true ∧
    (genericSymbols.derivesFrom .ignoreNull ⟨13⟩ ⟨14⟩ { types := genericTypes }).1 = true ∧
    (genericSymbols.derivesFrom .ignoreNull ⟨12⟩ ⟨14⟩ { types := genericTypes }).1 = true ∧
    (genericSymbols.derivesFrom .exact ⟨12⟩ ⟨14⟩ { types := genericTypes }).1 = false := by
  have hshort : ∀ x : Ty, x.Normal → WithinLimit (genericSymbols.Derives genericTypes) x := by
    intro x _
    refine (ranked_genericSymbols.encard_ancestor_le x).trans ?_
    exact_mod_cast (by decide : genericSymbols.definitions.size + 1 ≤ maxBaseSteps + 1)
  have hnormal : ∀ i < genericTypes.size, genericTypes.Normal ⟨i⟩ := fun i hi =>
    made_genericTypes.normal ⟨i⟩ hi
  have hd := hnormal 12 (by decide +kernel)
  have hb := hnormal 13 (by decide +kernel)
  have ha := hnormal 14 (by decide +kernel)
  have hle : genericTypes ≤ ({ types := genericTypes } : QueryState).types := le_refl _
  have hdb : (genericSymbols.derivesFrom .ignoreNull ⟨12⟩ ⟨13⟩ { types := genericTypes }).1 =
      true := by decide +kernel
  have hba : (genericSymbols.derivesFrom .ignoreNull ⟨13⟩ ⟨14⟩ { types := genericTypes }).1 =
      true := by decide +kernel
  have hda := (derivesFrom_order ranked_genericSymbols hshort).2.1 ⟨12⟩ ⟨13⟩ ⟨14⟩ hd hb ha
    _ _ _ hle hle hle hdb hba
  exact ⟨⟨ranked_genericSymbols, hshort⟩, hdb, hba, hda, by decide +kernel⟩

end UpdateExpr
