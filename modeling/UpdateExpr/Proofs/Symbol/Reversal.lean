import UpdateExpr.Proofs.Symbol.Agree
import UpdateExpr.Proofs.Symbol.Ancestry
import UpdateExpr.Proofs.Symbol.Nullability

/-!
# Conversions lead one way

Where definitions do not lead back to themselves, a step that is taken without being asked for is
one that has to be asked for on the way back. Numbers are widened and put into a box one way only.
Between references, all steps up follow the links of definitions or lead to `object`, so that none
of them leads back up; and the way down is there, since it is looked for among the same bases, or
one of the two types is an interface.

## Main definitions

* `TypeTable.Canonical`: a type as a table makes it
* `Conversion.stepsUp`: the steps that lead one way
* `SymbolTable.withoutMembers`: the symbols that conversions look at

## Main results

* `classifyReferences_eq`: the conversion between two references from answers of one state
* `above_of_derivesFrom`, `above_of_implements`: steps up follow links
* `classify_reversed`: conversions lead one way, and can be asked for on the way back
-/

namespace UpdateExpr

/-- A type as a table makes it: built from known handles, and with `null` at most once. -/
structure TypeTable.Canonical (t : TypeTable) (ty : TypeId) : Prop where
  interned : t.Interned ty
  singleNull : t.SingleNull ty

/-- The steps that are taken without being asked for, and that change what a value is taken for. -/
def Conversion.stepsUp : List Conversion :=
  [numeric, nullable, reference, boxing]

/-- The symbols without their members, which conversions do not look at. -/
def SymbolTable.withoutMembers (s : SymbolTable) : SymbolTable :=
  { s with members := #[] }

section Reversal

variable {s : SymbolTable} {t : TypeTable} {q q' : QueryState} {a b : TypeId}

/-! ## Without members -/

theorem climb_withoutMembers (s : SymbolTable) (n : Nat) (chain : List TypeId) (last : TypeId) :
    s.withoutMembers.climb n chain last = s.climb n chain last := by
  induction n generalizing chain last with
  | zero => rfl
  | succ n ih =>
    unfold SymbolTable.climb
    simp only [ih]
    rfl

theorem baseChain_withoutMembers (s : SymbolTable) (ty : TypeId) :
    s.withoutMembers.baseChain ty = s.baseChain ty :=
  climb_withoutMembers s _ _ _

theorem spread_withoutMembers (s : SymbolTable) (n : Nat) (found waiting : List TypeId) :
    s.withoutMembers.spread n found waiting = s.spread n found waiting := by
  induction n generalizing found waiting with
  | zero => rfl
  | succ n ih =>
    unfold SymbolTable.spread
    simp only [ih]
    rfl

theorem derivesFrom_withoutMembers (s : SymbolTable) (strictness : Strictness)
    (ty target : TypeId) :
    s.withoutMembers.derivesFrom strictness ty target = s.derivesFrom strictness ty target := by
  unfold SymbolTable.derivesFrom
  simp only [baseChain_withoutMembers]

theorem implements_withoutMembers (s : SymbolTable) (ty interface : TypeId) :
    s.withoutMembers.implements ty interface = s.implements ty interface := by
  unfold SymbolTable.implements SymbolTable.interfaceClosure
  simp only [baseChain_withoutMembers, spread_withoutMembers]

theorem classifyReferences_withoutMembers (s : SymbolTable) (source target : TypeId) :
    s.withoutMembers.classifyReferences source target = s.classifyReferences source target := by
  unfold SymbolTable.classifyReferences
  simp only [derivesFrom_withoutMembers, implements_withoutMembers]
  rfl

theorem classifyWithin_withoutMembers (s : SymbolTable) (n : Nat) (source target : TypeId) :
    s.withoutMembers.classifyWithin n source target = s.classifyWithin n source target := by
  induction n generalizing source target with
  | zero => rfl
  | succ n ih =>
    unfold SymbolTable.classifyWithin
    simp only [ih, classifyReferences_withoutMembers]

/-- Conversions do not look at members. -/
theorem classify_withoutMembers (s : SymbolTable) (source target : TypeId) :
    s.withoutMembers.classify source target = s.classify source target := by
  unfold SymbolTable.classify
  simp only [classifyWithin_withoutMembers]

/-! ## Answers of one state -/

section Answers

variable (hg : s.AllGood TypeTable.Interned t) (ha : t.Interned a) (hb : t.Interned b)
include hg ha hb

theorem derivesFrom_eq (hq : t ≤ q.types) (hq' : t ≤ q'.types) (strictness : Strictness) :
    (s.derivesFrom strictness a b q).1 = (s.derivesFrom strictness a b q').1 :=
  (agree_derivesFrom (fun ty hty => alike_of_interned (hg ty hty) ⟨hq, hq'⟩)
    (alike_of_interned ha ⟨hq, hq'⟩) (alike_of_interned hb ⟨hq, hq'⟩) strictness).post

theorem implements_eq (hq : t ≤ q.types) (hq' : t ≤ q'.types) :
    (s.implements a b q).1 = (s.implements a b q').1 :=
  (agree_implements (fun ty hty => alike_of_interned (hg ty hty) ⟨hq, hq'⟩)
    (alike_of_interned ha ⟨hq, hq'⟩) (alike_of_interned hb ⟨hq, hq'⟩)).post

theorem classify_eq (hq : t ≤ q.types) (hq' : t ≤ q'.types) :
    (s.classify a b q).1 = (s.classify a b q').1 :=
  (agree_classify (fun ty hty => alike_of_interned (hg ty hty) ⟨hq, hq'⟩)
    (alike_of_interned ha ⟨hq, hq'⟩) (alike_of_interned hb ⟨hq, hq'⟩)).post

end Answers

theorem le_derivesFrom (s : SymbolTable) (strictness : Strictness) (a b : TypeId) (q : QueryState) :
    q.types ≤ (s.derivesFrom strictness a b q).2.types :=
  (steady_derivesFrom TypeTable.hereditary_true (fun _ _ => trivial) trivial trivial
    strictness).grows.le

theorem le_implements (s : SymbolTable) (a b : TypeId) (q : QueryState) :
    q.types ≤ (s.implements a b q).2.types :=
  (steady_implements TypeTable.hereditary_true (fun _ _ => trivial) trivial trivial).grows.le

/-- A step up from a reference, as answers of one state. -/
theorem up_eq (hg : s.AllGood TypeTable.Interned t) (ha : t.Interned a) (hb : t.Interned b)
    (hq : t ≤ q.types) :
    q.types ≤ ((pure (b == .object) <||> s.derivesFrom .ignoreNull a b <||> s.implements a b :
        QueryM Bool) q).2.types ∧
      ((pure (b == .object) <||> s.derivesFrom .ignoreNull a b <||> s.implements a b :
        QueryM Bool) q).1 =
      (b == .object || (s.derivesFrom .ignoreNull a b q).1 || (s.implements a b q).1) := by
  have hle := le_derivesFrom s .ignoreNull a b q
  have himp := implements_eq hg ha hb (hq.trans hle) hq
  rw [pure_orM_apply, orM_apply]
  cases b == .object with
  | true => exact ⟨le_refl _, rfl⟩
  | false =>
    rw [if_neg Bool.false_ne_true]
    cases hd : (s.derivesFrom .ignoreNull a b q).1 with
    | true =>
      rw [if_pos rfl]
      exact ⟨hle, rfl⟩
    | false =>
      rw [if_neg Bool.false_ne_true]
      exact ⟨hle.trans (le_implements s a b _), himp⟩

/-- A step down from a reference to what derives from it, as answers of one state. -/
theorem down_eq (hg : s.AllGood TypeTable.Interned t) (ha : t.Interned a) (hb : t.Interned b)
    (hq : t ≤ q.types) (hq' : t ≤ q'.types) :
    q.types ≤ ((pure (a == .object) <||> s.derivesFrom .ignoreNull b a : QueryM Bool) q).2.types ∧
      ((pure (a == .object) <||> s.derivesFrom .ignoreNull b a : QueryM Bool) q).1 =
      (a == .object || (s.derivesFrom .ignoreNull b a q').1) := by
  rw [pure_orM_apply]
  cases a == .object with
  | true => exact ⟨le_refl _, rfl⟩
  | false =>
    rw [if_neg Bool.false_ne_true]
    exact ⟨le_derivesFrom s .ignoreNull b a q, derivesFrom_eq hg hb ha hq hq' _⟩

/-- **The conversion between two references from answers of one state.** -/
theorem classifyReferences_eq (hg : s.AllGood TypeTable.Interned t) {x y : TypeId}
    (hx : q.types.strip x = a) (hy : q.types.strip y = b) (ha : t.Interned a) (hb : t.Interned b)
    (hq : t ≤ q.types) :
    (s.classifyReferences x y q).1 =
      if q.types.areIdentical .ignoreNull a b then .identity
      else if b == .object || (s.derivesFrom .ignoreNull a b q).1 || (s.implements a b q).1 then
        .reference
      else if a == .object || (s.derivesFrom .ignoreNull b a q).1 ||
          (s.isInterface t a || s.isInterface t b) then .explicitOnly
      else .none := by
  unfold SymbolTable.classifyReferences
  rw [ofTypes_apply, hx, hy]
  cases hid : q.types.areIdentical .ignoreNull a b with
  | true => rfl
  | false =>
    obtain ⟨hle, hup⟩ := up_eq hg ha hb hq
    generalize hrun : (pure (b == .object) <||> s.derivesFrom .ignoreNull a b <||>
      s.implements a b : QueryM Bool) q = up at hle hup
    rw [if_neg Bool.false_ne_true, bind_apply, hrun, ← hup]
    split
    · rfl
    obtain ⟨hle', hdown⟩ := down_eq hg ha hb (hq.trans hle) hq
    rw [bind_apply, ← hdown]
    generalize (pure (a == .object) <||> s.derivesFrom .ignoreNull b a : QueryM Bool) up.2 = down
      at hle'
    cases down.1 with
    | true => rfl
    | false =>
      have hlater : Later TypeTable.Interned t down.2.types := ⟨(hq.trans hle).trans hle', .inr id⟩
      have hi : ∀ {ty}, t.Interned ty → s.isInterface down.2.types ty = s.isInterface t ty :=
        hlater.isInterface_eq TypeTable.hereditary_interned
      show (if s.isInterface down.2.types a || s.isInterface down.2.types b then
        Conversion.explicitOnly else .none) = _
      rw [hi ha, hi hb, Bool.false_or]
      rfl

/-! ## Steps up -/

section Up

variable {t' : TypeTable} {x y : TypeId} {d : DefId}

theorem strip_of_head? (h : t.head? a = some d) : t.strip a = a := by
  rw [head?_eq_map] at h
  obtain ⟨c, hc, -⟩ := Option.map_eq_some_iff.1 h
  exact strip_of_defAndArgs? hc

theorem head?_of_areIdentical (h : t.head? a = some d) (hid : t.areIdentical .ignoreNull a b = true)
    (hn : t.nullableInner? b = none) : t.head? b = some d := by
  have ha := strip_of_head? h
  have hb := strip_of_nullableInner?_eq_none hn
  rcases TypeTable.areIdentical_cases hid with heq | ⟨e, xs, ys, hx, hy⟩
  · rw [ha, hb] at heq
    rwa [← heq]
  · rw [ha] at hx
    rw [hb] at hy
    rw [TypeTable.head?, hx] at h
    rw [TypeTable.head?, hy]
    exact h

theorem eq_object_of_areIdentical (hid : t.areIdentical .ignoreNull .object b = true)
    (hn : t.nullableInner? b = none) : b = .object := by
  have hobject : t.strip .object = .object := strip_id t .object
  rcases TypeTable.areIdentical_cases hid with heq | ⟨e, xs, ys, hx, -⟩
  · rw [hobject, strip_of_nullableInner?_eq_none hn] at heq
    exact heq.symm
  · rw [hobject, show t.shape? .object = _ from t.shape?_id .object] at hx
    cases hx

theorem SymbolTable.Above.of_areIdentical (h : s.Above t t' a x)
    (hid : t'.areIdentical .ignoreNull x b = true) (hn : t'.nullableInner? b = none) :
    s.Above t t' a b := by
  obtain ⟨d, e, hd, he, hlinks⟩ := h
  exact ⟨d, e, hd, head?_of_areIdentical he hid hn, hlinks⟩

theorem SymbolTable.Applies.isInterface (h : s.Applies t a true) : s.isInterface t a = true := by
  obtain ⟨d, c, hd, hc, hi⟩ := h
  rw [SymbolTable.isInterface, strip_of_head? hd]
  rw [head?_eq_map] at hd
  obtain ⟨⟨d', args⟩, hd', rfl⟩ := Option.map_eq_some_iff.1 hd
  rw [hd']
  dsimp only
  rw [hc]
  exact hi

theorem Later.head?_eq {good : TypeTable → TypeId → Prop} (h : Later good t t') (hg : good t a) :
    t'.head? a = t.head? a := by
  rw [TypeTable.head?, TypeTable.head?, h.shape?_eq hg]

/-- Whether a known type is above another one was settled before the table grew. -/
theorem SymbolTable.Above.of_le (h : s.Above t t' a b) (hle : t ≤ t') (ha : t.Interned a)
    (hb : t.Interned b) : s.Above t t a b := by
  have hlater : Later TypeTable.Interned t t' := ⟨hle, .inr id⟩
  obtain ⟨d, e, hd, he, hlinks⟩ := h
  rw [hlater.head?_eq ha] at hd
  rw [hlater.head?_eq hb] at he
  exact ⟨d, e, hd, he, hlinks⟩

theorem le_baseChain (s : SymbolTable) (a : TypeId) (q : QueryState) :
    q.types ≤ (s.baseChain a q).2.types :=
  (steady_baseChain TypeTable.hereditary_true (fun _ _ => trivial) trivial).grows.le

theorem le_interfaceClosure (s : SymbolTable) (a : TypeId) (q : QueryState) :
    q.types ≤ (s.interfaceClosure a q).2.types :=
  (steady_interfaceClosure TypeTable.hereditary_true (fun _ _ => trivial) trivial).grows.le

/-- What answers yes to one of some questions, on the way. -/
theorem exists_of_anyM {p : TypeId → QueryM Bool}
    (hp : ∀ x q, q.types ≤ (p x q).2.types) {xs : List TypeId} (h : (xs.anyM p q).1 = true) :
    ∃ x ∈ xs, ∃ q' : QueryState, q.types ≤ q'.types ∧ (p x q').1 = true := by
  induction xs generalizing q with
  | nil => cases h
  | cons x xs ih =>
    rw [List.anyM_cons, bind_apply] at h
    cases hx : (p x q).1 with
    | true => exact ⟨x, by simp, q, le_refl _, hx⟩
    | false =>
      rw [hx] at h
      obtain ⟨y, hy, q', hle, hyes⟩ := ih h
      exact ⟨y, List.mem_cons_of_mem _ hy, q', (hp x q).trans hle, hyes⟩

/-- A type derives from those that are the same as one of its bases. -/
theorem derivesFrom_iff (hstrip : q.types.strip a = a) :
    (s.derivesFrom .ignoreNull a b q).1 = true ↔ ∃ x ∈ (s.baseChain a q).1,
      (s.baseChain a q).2.types.areIdentical .ignoreNull x b = true := by
  have hrun : (s.derivesFrom .ignoreNull a b q).1 = (s.baseChain (q.types.strip a) q).1.any
      ((s.baseChain (q.types.strip a) q).2.types.areIdentical .ignoreNull · b) := rfl
  rw [hrun, hstrip, List.any_eq_true]

/-- What a type implements is the same as an interface of one of its bases. -/
theorem exists_of_implements (hstrip : q.types.strip a = a)
    (h : (s.implements a b q).1 = true) : ∃ base ∈ (s.baseChain a q).1, ∃ q' : QueryState,
      (s.baseChain a q).2.types ≤ q'.types ∧ ∃ x ∈ (s.interfaceClosure base q').1,
        (s.interfaceClosure base q').2.types.areIdentical .ignoreNull x b = true := by
  let reaches : TypeId → QueryM Bool := fun base => do
    let closure ← s.interfaceClosure base
    let types ← QueryM.types
    return closure.any (types.areIdentical .ignoreNull · b)
  have hrun : (s.implements a b q).1 =
      ((s.baseChain (q.types.strip a) q).1.anyM reaches (s.baseChain (q.types.strip a) q).2).1 :=
    rfl
  have hgrows : ∀ x q, q.types ≤ (reaches x q).2.types := le_interfaceClosure s
  rw [hrun, hstrip] at h
  obtain ⟨base, hbase, q', hq', hyes⟩ := exists_of_anyM hgrows h
  exact ⟨base, hbase, q', hq', List.any_eq_true.1 hyes⟩

variable (hs : s.Ordered t) (ha : t.Interned a) (hna : t.nullableInner? a = none)
  (hb : t.Interned b) (hnb : t.nullableInner? b = none) (hq : t ≤ q.types)
include hs ha hna hb hnb hq

/-- **A step up to a base follows links**, or it leads to `object`. -/
theorem above_of_derivesFrom (h : (s.derivesFrom .ignoreNull a b q).1 = true) :
    t.areIdentical .ignoreNull a b = true ∨ b = .object ∨ s.Above t t a b := by
  have hlater : Later TypeTable.Interned t q.types := ⟨hq, .inr id⟩
  have hstrip : q.types.strip a = a := by
    rw [hlater.strip_eq ha, strip_of_nullableInner?_eq_none hna]
  obtain ⟨x, hx, hid⟩ := (derivesFrom_iff hstrip).1 h
  have hchain := mem_baseChain hs hq a x hx
  have hlater' : Later TypeTable.Interned t (s.baseChain a q).2.types :=
    ⟨hq.trans (le_baseChain s a q), .inr id⟩
  have hnb' : (s.baseChain a q).2.types.nullableInner? b = none := by
    rw [hlater'.nullableInner?_eq hb, hnb]
  rcases hchain with rfl | rfl | habove
  · exact .inl ((hlater'.areIdentical_eq ha hb _).symm.trans hid)
  · exact .inr (.inl (eq_object_of_areIdentical hid hnb'))
  · exact .inr (.inr ((habove.of_areIdentical hid hnb').of_le hlater'.1 ha hb))

/-- **A step up to an interface follows links**, or it leads to a base. -/
theorem above_of_implements (hg : s.AllGood TypeTable.Interned t)
    (h : (s.implements a b q).1 = true) :
    (s.derivesFrom .ignoreNull a b q).1 = true ∨ s.Above t t a b ∧ s.isInterface t b = true := by
  have hlater : Later TypeTable.Interned t q.types := ⟨hq, .inr id⟩
  have hstrip : q.types.strip a = a := by
    rw [hlater.strip_eq ha, strip_of_nullableInner?_eq_none hna]
  have hle : q.types ≤ (s.baseChain a q).2.types := le_baseChain s a q
  obtain ⟨base, hbase, q', hq', x, hx, hid⟩ := exists_of_implements hstrip h
  have hchain := (mem_baseChain hs hq a base hbase).mono hq'
  have htq' : t ≤ q'.types := hq.trans (hle.trans hq')
  have hclosure := mem_interfaceClosure hs htq' base x hx
  have hle' := le_interfaceClosure s base q'
  have hlater' : Later TypeTable.Interned t (s.interfaceClosure base q').2.types :=
    ⟨htq'.trans hle', .inr id⟩
  have hnb' : (s.interfaceClosure base q').2.types.nullableInner? b = none := by
    rw [hlater'.nullableInner?_eq hb, hnb]
  rcases hclosure with rfl | ⟨hx, happ⟩
  · have hinterned : (s.baseChain a q).2.types.Interned x :=
      (steady_baseChain TypeTable.hereditary_interned (fun ty hty => (hg ty hty).mono hq)
        (ha.mono hq)).post x hbase
    have hgrown : Later TypeTable.Interned (s.baseChain a q).2.types
        (s.interfaceClosure x q').2.types := ⟨hq'.trans hle', .inr id⟩
    rw [hgrown.areIdentical_eq hinterned (hb.mono (hq.trans hle))] at hid
    exact .inl ((derivesFrom_iff hstrip).2 ⟨x, hbase, hid⟩)
  · have hup : s.Above t (s.interfaceClosure base q').2.types base b := hx.of_areIdentical hid hnb'
    have hab : s.Above t (s.interfaceClosure base q').2.types a b := by
      rcases hchain.mono hle' with rfl | rfl | habove
      · exact hup
      · exact absurd rfl hup.left_ne_object
      · exact habove.trans hup
    refine .inr ⟨hab.of_le hlater'.1 ha hb, ?_⟩
    obtain ⟨e, c, he, hc, hi⟩ := happ
    have happ' : s.Applies t b true := by
      refine ⟨e, c, ?_, hc, hi⟩
      rw [← hlater'.head?_eq hb]
      exact head?_of_areIdentical he hid hnb'
    exact happ'.isInterface

end Up

/-! ## Between references -/

section References

variable {x y : TypeId}

/-- Up from one type to another, by links or to `object`, is not up from that to the first. -/
theorem not_up_of_up (hs : s.Ordered t) (hne : a ≠ b) (h : b = .object ∨ s.Above t t a b) :
    ¬ (a = .object ∨ s.Above t t b a) := by
  rcases h with rfl | h
  · rintro (rfl | h')
    · exact hne rfl
    · exact h'.left_ne_object rfl
  · rintro (rfl | h')
    · exact h.left_ne_object rfl
    · exact hs.not_above h h'

/-- A step up leads to `object` or follows links, unless the two types are the same. -/
theorem up_of_step (hs : s.Ordered t) (hg : s.AllGood TypeTable.Interned t) (ha : t.Interned a)
    (hna : t.nullableInner? a = none) (hb : t.Interned b) (hnb : t.nullableInner? b = none)
    (hq : t ≤ q.types) (hid : t.areIdentical .ignoreNull a b = false)
    (h : (b == .object || (s.derivesFrom .ignoreNull a b q).1 || (s.implements a b q).1) = true) :
    b = .object ∨ s.Above t t a b := by
  have hbase : (s.derivesFrom .ignoreNull a b q).1 = true → b = .object ∨ s.Above t t a b := by
    intro hd
    refine (above_of_derivesFrom hs ha hna hb hnb hq hd).resolve_left ?_
    rw [hid]
    exact Bool.false_ne_true
  simp only [Bool.or_eq_true, beq_iff_eq] at h
  rcases h with (hobj | hd) | hi
  · exact .inl hobj
  · exact hbase hd
  · rcases above_of_implements hs ha hna hb hnb hq hg hi with hd | ⟨habove, -⟩
    · exact hbase hd
    · exact .inr habove

/-- **Between references, a step up has to be asked for on the way back.** -/
theorem classifyReferences_reversed (hs : s.Ordered t) (hg : s.AllGood TypeTable.Interned t)
    (hx : q.types.strip x = a) (hy : q.types.strip y = b) (ha : t.Interned a)
    (hna : t.nullableInner? a = none) (hb : t.Interned b) (hnb : t.nullableInner? b = none)
    (hq : t ≤ q.types) :
    ((s.classifyReferences x y q).1 = .identity ∧ (s.classifyReferences y x q).1 = .identity) ∨
      (s.classifyReferences x y q).1 ≠ .identity ∧ (s.classifyReferences y x q).1 ≠ .identity ∧
        ((s.classifyReferences x y q).1 ∈ Conversion.stepsUp →
          (s.classifyReferences y x q).1 = .explicitOnly) := by
  have hlater : Later TypeTable.Interned t q.types := ⟨hq, .inr id⟩
  rw [classifyReferences_eq hg hx hy ha hb hq, classifyReferences_eq hg hy hx hb ha hq,
    TypeTable.areIdentical_comm q.types .ignoreNull b a, hlater.areIdentical_eq ha hb]
  cases hid : t.areIdentical .ignoreNull a b with
  | true => exact .inl ⟨rfl, rfl⟩
  | false =>
    rw [if_neg Bool.false_ne_true, if_neg Bool.false_ne_true]
    refine .inr ⟨by split_ifs <;> exact nofun, by split_ifs <;> exact nofun, fun h => ?_⟩
    have hup : (b == .object || (s.derivesFrom .ignoreNull a b q).1 ||
        (s.implements a b q).1) = true := by
      by_contra hno
      rw [if_neg hno] at h
      split_ifs at h <;> exact absurd h (by decide)
    have hne : a ≠ b := by
      rintro rfl
      rw [TypeTable.areIdentical_self] at hid
      cases hid
    have hid' : t.areIdentical .ignoreNull b a = false := by
      rw [TypeTable.areIdentical_comm, hid]
    -- The way back is no step up, since links lead one way.
    have hback : ¬ (a == .object || (s.derivesFrom .ignoreNull b a q).1 ||
        (s.implements b a q).1) = true := fun hdown =>
      not_up_of_up hs hne (up_of_step hs hg ha hna hb hnb hq hid hup)
        (up_of_step hs hg hb hnb ha hna hq hid' hdown)
    rw [if_neg hback]
    refine if_pos ?_
    simp only [Bool.or_eq_true] at hup ⊢
    rcases hup with hup | hi
    · exact .inl hup
    · rcases above_of_implements hs ha hna hb hnb hq hg hi with hd | ⟨-, hinterface⟩
      · exact .inl (.inr hd)
      · exact .inr (.inl hinterface)

end References

/-! ## Where one type is no reference -/

/-- Numbers are widened, and values put into a box, one way only. -/
theorem ofIntrinsics_reversed (k l : Intrinsic)
    (h : Conversion.ofIntrinsics k l = .numeric ∨ Conversion.ofIntrinsics k l = .boxing) :
    Conversion.ofIntrinsics l k = .explicitOnly := by
  revert h
  cases k <;> cases l <;> decide

theorem ofIntrinsics_cases (k l : Intrinsic) :
    Conversion.ofIntrinsics k l ∈ [Conversion.numeric, .boxing, .explicitOnly, .none] ∨ k = l := by
  cases k <;> cases l <;> decide

theorem bare_self (t : TypeTable) (a : TypeId) : Conversion.bare t a a = .identity :=
  if_pos rfl

/-- Between two different types without `null`, of which one is no reference, a step that is taken
without being asked for is one of numbers or into a box, and has to be asked for on the way back. -/
theorem bare_reversed (hne : a ≠ b) :
    Conversion.bare t a b ∈ [Conversion.explicitOnly, .none] ∨
      Conversion.bare t a b ∈ [Conversion.numeric, .boxing] ∧
        Conversion.bare t b a = .explicitOnly := by
  rw [Conversion.bare, Conversion.bare, if_neg hne, if_neg hne.symm]
  cases hk : t.intrinsic? a with
  | none => exact .inl (by simp)
  | some k =>
    cases hl : t.intrinsic? b with
    | none => exact .inl (by simp)
    | some l =>
      have hkl : k ≠ l := by
        rintro rfl
        exact hne ((intrinsic?_eq_some_iff.1 hk).trans (intrinsic?_eq_some_iff.1 hl).symm)
      have hrev := ofIntrinsics_reversed k l
      have hcases := (ofIntrinsics_cases k l).resolve_right hkl
      dsimp only
      revert hrev hcases
      cases Conversion.ofIntrinsics k l <;> simp

/-- **Where one type is no reference, a step has to be asked for on the way back.** -/
theorem classify_reversed_of_not_isReference (hsa : q.types.SingleNull a)
    (hsb : q.types.SingleNull b) (ha : a.isError = false) (hb : b.isError = false) (hne : a ≠ b)
    (hr : (q.types.isReference a && q.types.isReference b) = false) :
    (s.classify a b q).1 ≠ .identity ∧
      ((s.classify a b q).1 ∈ Conversion.stepsUp →
        (s.classify b a q).1 = .explicitOnly) := by
  rw [classify_of_not_isReference hsa hsb ha hb hne hr,
    classify_of_not_isReference hsb hsa hb ha hne.symm (by rwa [Bool.and_comm])]
  by_cases heq : q.types.strip a = q.types.strip b
  · rw [heq, bare_self]
    cases hia : q.types.nullableInner? a with
    | none =>
      cases hib : q.types.nullableInner? b with
      | none =>
        rw [strip_of_nullableInner?_eq_none hia, strip_of_nullableInner?_eq_none hib] at heq
        exact absurd heq hne
      | some _ => exact ⟨nofun, fun _ => rfl⟩
    | some inner =>
      cases hib : q.types.nullableInner? b with
      | none =>
        exact ⟨nofun, fun h => absurd (show Conversion.explicitOnly ∈ _ from h) (by decide)⟩
      | some inner' =>
        rw [strip_of_nullableInner? hia, strip_of_nullableInner? hib] at heq
        rw [← heq] at hib
        exact absurd (nullableInner?_injective hia hib) hne
  · generalize (q.types.nullableInner? a).isSome = i, (q.types.nullableInner? b).isSome = j
    rcases bare_reversed heq with h | ⟨h, h'⟩
    · rw [List.mem_pair] at h
      rcases h with h | h
      · rw [h, Conversion.withNull_explicitOnly]
        exact ⟨nofun, fun hmem => absurd hmem (by decide)⟩
      · rw [h, Conversion.withNull_none]
        exact ⟨nofun, fun hmem => absurd hmem (by decide)⟩
    · rw [h', Conversion.withNull_explicitOnly]
      refine ⟨?_, fun _ => rfl⟩
      rw [List.mem_pair] at h
      rcases h with h | h <;> rw [h] <;> cases i <;> cases j <;> decide

/-! ## All types -/

theorem TypeTable.Canonical.mono {t' : TypeTable} (h : t.Canonical a) (hle : t ≤ t') :
    t'.Canonical a where
  interned := h.interned.mono hle
  singleNull inner hi := by
    have hlater : Later TypeTable.Interned t t' := ⟨hle, .inr id⟩
    rw [hlater.nullableInner?_eq h.interned] at hi
    have hinner := good_nullableInner TypeTable.hereditary_interned h.interned hi
    rw [hlater.nullableInner?_eq hinner]
    exact h.singleNull inner hi

theorem SymbolTable.Ordered.withoutMembers (hs : s.Ordered t) : s.withoutMembers.Ordered t :=
  ⟨hs.base, hs.interface, hs.acyclic⟩

theorem SymbolTable.Ordered.allGood (hs : s.Ordered t) :
    s.withoutMembers.AllGood TypeTable.Interned t := by
  intro ty hty
  cases hty with
  | base h hb => exact (hs.base h hb).1
  | interface h hi => exact (hs.interface h hi).1
  | value h => exact absurd h (by simp [SymbolTable.member?, SymbolTable.withoutMembers])
  | parameter h _ => exact absurd h (by simp [SymbolTable.member?, SymbolTable.withoutMembers])

/-- What holds of the conversions both ways between two types, asked in one state. -/
theorem classify_cases (hs : s.Ordered t) (hg : s.AllGood TypeTable.Interned t)
    (hq : t ≤ q.types) (ha : t.Canonical a) (hb : t.Canonical b) (hea : a.isError = false)
    (heb : b.isError = false) :
    ((s.classify a b q).1 = .identity ∧ (s.classify b a q).1 = .identity) ∨
      (s.classify a b q).1 ≠ .identity ∧ (s.classify b a q).1 ≠ .identity ∧
        ((s.classify a b q).1 ∈ Conversion.stepsUp →
          (s.classify b a q).1 = .explicitOnly) := by
  by_cases hab : a = b
  · subst hab
    rw [SymbolTable.classify_self]
    exact .inl ⟨rfl, rfl⟩
  cases hr : q.types.isReference a && q.types.isReference b with
  | true =>
    obtain ⟨hra, hrb⟩ := (Bool.and_eq_true_iff ..).1 hr
    have hlater : Later TypeTable.Interned t q.types := ⟨hq, .inr id⟩
    have hg' := TypeTable.hereditary_interned
    rw [classify_of_isReference hra hrb, classify_of_isReference hrb hra]
    exact classifyReferences_reversed hs hg (hlater.strip_eq ha.interned)
      (hlater.strip_eq hb.interned) (hg'.strip ha.interned) ha.singleNull.nullableInner?_strip
      (hg'.strip hb.interned) hb.singleNull.nullableInner?_strip hq
  | false =>
    have hsa := (ha.mono hq).singleNull
    have hsb := (hb.mono hq).singleNull
    obtain ⟨hne, hrev⟩ := classify_reversed_of_not_isReference (s := s) hsa hsb hea heb hab hr
    obtain ⟨hne', -⟩ := classify_reversed_of_not_isReference (s := s) hsb hsa heb hea (Ne.symm hab)
      (by rwa [Bool.and_comm])
    exact .inr ⟨hne, hne', hrev⟩

/-- **Conversions lead one way.** Where definitions do not lead back to themselves, a step that is
taken without being asked for, by widening, by adding `null`, by reference or into a box, is one
that has to be asked for on the way back; and two types convert without a step both ways or neither
way. -/
theorem classify_reversed (s : SymbolTable) {t : TypeTable} {q q' : QueryState} {a b : TypeId}
    (hs : s.Ordered t) (hq : t ≤ q.types) (hq' : t ≤ q'.types) (ha : t.Canonical a)
    (hb : t.Canonical b) (hea : a.isError = false) (heb : b.isError = false) :
    ((s.classify a b q).1 ∈ Conversion.stepsUp →
      (s.classify b a q').1 = .explicitOnly) ∧
    ((s.classify a b q).1 = .identity ↔ (s.classify b a q').1 = .identity) := by
  have hg := hs.allGood
  rw [← classify_withoutMembers, ← classify_withoutMembers s b a,
    classify_eq hg hb.interned ha.interned hq' hq]
  rcases classify_cases hs.withoutMembers hg hq ha hb hea heb with
    ⟨hid, hid'⟩ | ⟨hne, hne', hrev⟩
  · rw [hid, hid']
    exact ⟨by decide, Iff.rfl⟩
  · exact ⟨hrev, fun h => absurd h hne, fun h => absurd h hne'⟩

end Reversal

/-- A class `D` with the base `B`, which has the interface `I`. -/
def stepSymbols : SymbolTable where
  definitions := #[
    { name := "D", base? := some ⟨9⟩ },
    { name := "B", interfaces := [⟨10⟩] },
    { name := "I", isInterface := true }]

/-- The types of these definitions. -/
def stepTypes : TypeTable where
  shapes := #[.intrinsic .error, .intrinsic .void, .intrinsic .object, .intrinsic .int,
    .intrinsic .long, .intrinsic .double, .intrinsic .bool, .intrinsic .string,
    .plain ⟨0⟩, .plain ⟨1⟩, .plain ⟨2⟩]
  getElem?_id := by intro k; cases k <;> rfl
  nodup := by decide

theorem canonical_stepTypes {ty : TypeId} (h : ty.index < stepTypes.size) :
    stepTypes.Canonical ty := by
  have hplain : ∀ i < stepTypes.size, ∀ shape ∈ stepTypes.shape? ⟨i⟩, shape.parts = [] := by
    decide +kernel
  have hnull : ∀ i < stepTypes.size, stepTypes.nullableInner? ⟨i⟩ = none := by
    decide +kernel
  refine ⟨TypeTable.interned_of_ordered (fun ty shape hs part hp => ?_) h, fun inner hi => ?_⟩
  · rw [hplain ty.index (TypeTable.index_lt_size hs) shape hs] at hp
    cases hp
  · rw [show stepTypes.nullableInner? ty = none from hnull ty.index h] at hi
    cases hi

theorem definition?_stepSymbols {d : DefId} {c : Definition}
    (h : stepSymbols.definition? d = some c) :
    d = ⟨0⟩ ∧ c.base? = some ⟨9⟩ ∧ c.interfaces = [] ∨
      d = ⟨1⟩ ∧ c.base? = none ∧ c.interfaces = [⟨10⟩] ∨
      d = ⟨2⟩ ∧ c.base? = none ∧ c.interfaces = [] := by
  obtain ⟨i⟩ := d
  match i, h with
  | 0, h =>
    cases h
    exact .inl ⟨rfl, rfl, rfl⟩
  | 1, h =>
    cases h
    exact .inr (.inl ⟨rfl, rfl, rfl⟩)
  | 2, h =>
    cases h
    exact .inr (.inr ⟨rfl, rfl, rfl⟩)

/-- The definitions of the table are ordered: each is numbered below those that it links to. -/
theorem ordered_stepSymbols : stepSymbols.Ordered stepTypes where
  base h hb := by
    rcases definition?_stepSymbols h with ⟨-, hbase, -⟩ | ⟨-, hbase, -⟩ | ⟨-, hbase, -⟩
    · cases hbase.symm.trans hb
      exact ⟨(canonical_stepTypes (by decide)).interned, .inr ⟨⟨1⟩, _, rfl, rfl, rfl⟩⟩
    · cases hbase.symm.trans hb
    · cases hbase.symm.trans hb
  interface h hi := by
    rcases definition?_stepSymbols h with ⟨-, -, hall⟩ | ⟨-, -, hall⟩ | ⟨-, -, hall⟩
    · rw [hall] at hi
      cases hi
    · rw [hall, List.mem_singleton] at hi
      subst hi
      exact ⟨(canonical_stepTypes (by decide)).interned, ⟨2⟩, _, rfl, rfl, rfl⟩
    · rw [hall] at hi
      cases hi
  acyclic := by
    apply not_transGen_self_of_index_lt
    rintro d e ⟨c, ty, hc, hty, he⟩
    rcases definition?_stepSymbols hc with
      ⟨rfl, hbase, hall⟩ | ⟨rfl, hbase, hall⟩ | ⟨-, hbase, hall⟩ <;>
      rw [hbase, hall] at hty
    · obtain rfl : (⟨9⟩ : TypeId) = ty := by simpa using hty
      cases he
      decide
    · obtain rfl : ty = (⟨10⟩ : TypeId) := by simpa using hty
      cases he
      decide
    · simp at hty

/-- From the class to the interface of its base, and back. -/
theorem classify_reversed_of_interface :
    (stepSymbols.Ordered stepTypes ∧ stepTypes.Canonical ⟨8⟩ ∧ stepTypes.Canonical ⟨10⟩) ∧
    (stepSymbols.classify ⟨8⟩ ⟨10⟩ { types := stepTypes }).1 = .reference ∧
    (stepSymbols.classify ⟨10⟩ ⟨8⟩ { types := stepTypes }).1 = .explicitOnly := by
  have hd : stepTypes.Canonical ⟨8⟩ := canonical_stepTypes (by decide)
  have hi : stepTypes.Canonical ⟨10⟩ := canonical_stepTypes (by decide)
  have href : (stepSymbols.classify ⟨8⟩ ⟨10⟩ { types := stepTypes }).1 = .reference := by
    decide +kernel
  have hle : stepTypes ≤ ({ types := stepTypes } : QueryState).types := le_refl _
  have hrev := classify_reversed stepSymbols ordered_stepSymbols hle hle hd hi rfl rfl
  exact ⟨⟨ordered_stepSymbols, hd, hi⟩, href, hrev.1 (by rw [href]; decide)⟩

end UpdateExpr
