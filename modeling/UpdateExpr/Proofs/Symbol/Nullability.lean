import UpdateExpr.Proofs.Symbol.Conversion
import UpdateExpr.Proofs.Ty.Alike

/-!
# Conversions and `null`

Whether a reference may be `null` does not matter to a conversion between references. Where one of
the two types is no reference, `null` is taken away first, from the target or else from the source,
and what remains is the conversion between two types without `null`. The ways into and out of `null`
differ for one kind of conversion: a value is put into a box for `object`, and out of a type with
`null` as well, but into `object` with `null` it has to be asked for.

## Main definitions

* `TypeTable.SingleNull`: `null` is added to a type at most once
* `Conversion.bare`: the conversion between two types without `null`, of which one is no reference
* `Conversion.withNull`: the conversion with `null` added to the source or the target
* `TypeTable.IsValue`: the values of a type, without its `null`, are no references

## Main results

* `classify_of_isReference`: the conversion between two references
* `classify_of_not_isReference`: the conversion where one of two types is no reference
* `classify_nullable_iff`: where `null` in a reference makes a difference
-/

namespace UpdateExpr

/-- To a type `null` is added at most once, and never to the error type. -/
def TypeTable.SingleNull (t : TypeTable) (ty : TypeId) : Prop :=
  ∀ inner ∈ t.nullableInner? ty, inner.isError = false ∧ t.nullableInner? inner = none

/-- A type, without its `null`, is one of numbers or truth values. -/
def TypeTable.IsValue (t : TypeTable) (ty : TypeId) : Prop :=
  ∃ k : Intrinsic, k.isValueType = true ∧ t.strip ty = k.id

/-- The conversion between two types without `null`, of which one is no reference. -/
def Conversion.bare (t : TypeTable) (a b : TypeId) : Conversion :=
  if a = b then .identity
  else
    match t.intrinsic? a, t.intrinsic? b with
    | some k, some l => .ofIntrinsics k l
    | _, _ => .none

/-- A conversion between two types without `null`, with `null` added to the source, to the target,
or to both. -/
def Conversion.withNull (conversion : Conversion) (source target : Bool) : Conversion :=
  if target then conversion.intoNullable
  else if source then conversion.outOfNullable
  else conversion

@[simp] theorem Conversion.withNull_explicitOnly (source target : Bool) :
    explicitOnly.withNull source target = .explicitOnly := by
  cases source <;> cases target <;> rfl

@[simp] theorem Conversion.withNull_none (source target : Bool) :
    Conversion.none.withNull source target = .none := by
  cases source <;> cases target <;> rfl

section Shapes

variable {t : TypeTable} {a b inner : TypeId} {k : Intrinsic}

theorem intrinsic?_of_nullableInner? (h : t.nullableInner? a = some inner) :
    t.intrinsic? a = none := by
  unfold TypeTable.nullableInner? at h
  unfold TypeTable.intrinsic?
  split at h
  · next hs => rw [hs]
  · cases h

theorem intrinsic?_eq_some_iff : t.intrinsic? a = some k ↔ a = k.id := by
  constructor
  · intro h
    unfold TypeTable.intrinsic? at h
    split at h
    · next hs =>
      cases h
      exact TypeTable.shape?_injective hs (t.shape?_id k)
    · cases h
  · rintro rfl
    rw [TypeTable.intrinsic?, TypeTable.shape?_id]

theorem strip_of_nullableInner? (h : t.nullableInner? a = some inner) : t.strip a = inner := by
  rw [TypeTable.strip, h]
  rfl

theorem strip_of_nullableInner?_eq_none (h : t.nullableInner? a = none) : t.strip a = a := by
  rw [TypeTable.strip, h]
  rfl

theorem TypeTable.SingleNull.of_none (h : t.nullableInner? a = none) : t.SingleNull a := by
  intro inner hi
  rw [h] at hi
  cases hi

theorem TypeTable.SingleNull.nullableInner?_strip (h : t.SingleNull a) :
    t.nullableInner? (t.strip a) = none := by
  cases hi : t.nullableInner? a with
  | none => rw [strip_of_nullableInner?_eq_none hi, hi]
  | some inner =>
    rw [strip_of_nullableInner? hi]
    exact (h inner hi).2

theorem TypeTable.SingleNull.isError_strip (h : t.SingleNull a) (ha : a.isError = false) :
    (t.strip a).isError = false := by
  cases hi : t.nullableInner? a with
  | none => rwa [strip_of_nullableInner?_eq_none hi]
  | some inner =>
    rw [strip_of_nullableInner? hi]
    exact (h inner hi).1

theorem TypeTable.SingleNull.isReference_strip (h : t.SingleNull a) :
    t.isReference (t.strip a) = t.isReference a := by
  rw [isReference, isReference, strip_of_nullableInner?_eq_none h.nullableInner?_strip]

/-- Types that differ by `null` only, and by nothing if both have it. -/
theorem nullableInner?_injective (ha : t.nullableInner? a = some inner)
    (hb : t.nullableInner? b = some inner) : a = b := by
  unfold TypeTable.nullableInner? at ha hb
  split at ha
  · next hs =>
    cases ha
    split at hb
    · next hs' =>
      cases hb
      exact TypeTable.shape?_injective hs hs'
    · cases hb
  · cases ha

theorem nullableInner?_id (t : TypeTable) (k : Intrinsic) : t.nullableInner? k.id = none := by
  rw [TypeTable.nullableInner?, TypeTable.shape?_id]

theorem strip_id (t : TypeTable) (k : Intrinsic) : t.strip k.id = k.id :=
  strip_of_nullableInner?_eq_none (nullableInner?_id t k)

theorem isReference_string (t : TypeTable) : t.isReference .string = true := by
  rw [TypeTable.isReference, show t.strip .string = .string from strip_id t .string]
  rfl

theorem isError_of_isReference (h : t.isReference a = true) : a.isError = false := by
  by_contra he
  have herror : a = Intrinsic.error.id := eq_of_beq (Bool.eq_true_of_not_eq_false he)
  subst herror
  rw [TypeTable.isReference, strip_id, TypeTable.defAndArgs?, TypeTable.shape?_id] at h
  exact absurd h (by decide)

/-- A reference without `null` is `object`, a text, or no intrinsic type. -/
theorem intrinsic?_of_isReference (h : t.isReference a = true) (hn : t.nullableInner? a = none) :
    a = .object ∨ a = .string ∨ t.intrinsic? a = none := by
  rw [TypeTable.isReference, strip_of_nullableInner?_eq_none hn] at h
  simp only [Bool.or_eq_true, beq_iff_eq] at h
  rcases h with (rfl | rfl) | h
  · exact .inl rfl
  · exact .inr (.inl rfl)
  · refine .inr (.inr ?_)
    cases hi : t.intrinsic? a with
    | none => rfl
    | some k =>
      rw [intrinsic?_eq_some_iff.1 hi, TypeTable.defAndArgs?, TypeTable.shape?_id] at h
      cases h

theorem TypeTable.IsValue.isReference (h : t.IsValue a) : t.isReference a = false := by
  obtain ⟨k, hv, hk⟩ := h
  rw [TypeTable.isReference, hk, TypeTable.defAndArgs?, TypeTable.shape?_id]
  cases k with
  | int | long | double | bool => rfl
  | _ => cases hv

theorem TypeTable.IsValue.isError (h : t.IsValue a) : a.isError = false := by
  obtain ⟨k, hv, hk⟩ := h
  by_contra he
  have herror : a = Intrinsic.error.id := eq_of_beq (Bool.eq_true_of_not_eq_false he)
  rw [herror, strip_id] at hk
  rw [← Intrinsic.id_injective hk] at hv
  cases hv

end Shapes

section Classify

variable {s : SymbolTable} {q : QueryState} {a b a' b' inner : TypeId} {n : Nat}

/-! ## One step -/

theorem classifyWithin_succ_apply (s : SymbolTable) (n : Nat) (a b : TypeId) (q : QueryState) :
    s.classifyWithin (n + 1) a b q =
      if a.isError || b.isError || a == b then (.identity, q)
      else if q.types.isReference a && q.types.isReference b then s.classifyReferences a b q
      else
        match q.types.intrinsic? a, q.types.intrinsic? b with
        | some k, some l => (.ofIntrinsics k l, q)
        | _, _ =>
          match q.types.nullableInner? b, q.types.nullableInner? a with
          | some inner, _ =>
            let r := s.classifyWithin n (q.types.strip a) inner q
            (r.1.intoNullable, r.2)
          | none, some inner =>
            let r := s.classifyWithin n inner b q
            (r.1.outOfNullable, r.2)
          | none, none => (.none, q) := by
  show (if a.isError || b.isError || a == b then pure .identity
    else if q.types.isReference a && q.types.isReference b then s.classifyReferences a b
    else
      match q.types.intrinsic? a, q.types.intrinsic? b with
      | some k, some l => return .ofIntrinsics k l
      | _, _ =>
        match q.types.nullableInner? b, q.types.nullableInner? a with
        | some inner, _ => return (← s.classifyWithin n (q.types.strip a) inner).intoNullable
        | none, some inner => return (← s.classifyWithin n inner b).outOfNullable
        | none, none => return .none : QueryM Conversion) q = _
  split
  · rfl
  split
  · rfl
  cases q.types.nullableInner? b <;> cases q.types.nullableInner? a <;>
    cases q.types.intrinsic? a <;> cases q.types.intrinsic? b <;> rfl

/-- `null` is taken away from the target, and from the source if it has it too. -/
theorem classifyWithin_into (ha : a.isError = false) (hb : b.isError = false) (hne : a ≠ b)
    (hr : (q.types.isReference a && q.types.isReference b) = false)
    (hi : q.types.nullableInner? b = some inner) :
    s.classifyWithin (n + 1) a b q =
      ((s.classifyWithin n (q.types.strip a) inner q).1.intoNullable,
        (s.classifyWithin n (q.types.strip a) inner q).2) := by
  rw [classifyWithin_succ_apply, ha, hb, hr, beq_false_of_ne hne,
    intrinsic?_of_nullableInner? hi, hi]
  cases q.types.intrinsic? a <;> rfl

/-- `null` is taken away from the source alone. -/
theorem classifyWithin_outOf (ha : a.isError = false) (hb : b.isError = false) (hne : a ≠ b)
    (hr : (q.types.isReference a && q.types.isReference b) = false)
    (hi : q.types.nullableInner? a = some inner) (hn : q.types.nullableInner? b = none) :
    s.classifyWithin (n + 1) a b q =
      ((s.classifyWithin n inner b q).1.outOfNullable, (s.classifyWithin n inner b q).2) := by
  rw [classifyWithin_succ_apply, ha, hb, hr, beq_false_of_ne hne,
    intrinsic?_of_nullableInner? hi, hi, hn]
  rfl

theorem classifyWithin_bare (ha : a.isError = false) (hb : b.isError = false)
    (hr : (q.types.isReference a && q.types.isReference b) = false)
    (hna : q.types.nullableInner? a = none) (hnb : q.types.nullableInner? b = none) :
    s.classifyWithin (n + 1) a b q = (.bare q.types a b, q) := by
  rw [classifyWithin_succ_apply, ha, hb, hr, hna, hnb, Conversion.bare]
  by_cases hab : a = b
  · rw [if_pos hab, hab, beq_self_eq_true]
    rfl
  · rw [if_neg hab, beq_false_of_ne hab]
    cases q.types.intrinsic? a with
    | none => rfl
    | some k => cases q.types.intrinsic? b <;> rfl

theorem classify_apply (s : SymbolTable) (a b : TypeId) (q : QueryState) :
    s.classify a b q = s.classifyWithin (q.types.size + 1) a b q :=
  rfl

theorem exists_size (t : TypeTable) : ∃ n, t.size = n + 1 :=
  Nat.exists_eq_add_one.2 (Nat.zero_lt_of_lt t.eight_le_size)

/-! ## Between references -/

theorem classifyReferences_self (s : SymbolTable) (a : TypeId) (q : QueryState) :
    s.classifyReferences a a q = (.identity, q) := by
  unfold SymbolTable.classifyReferences
  rw [ofTypes_apply, TypeTable.areIdentical_self]
  rfl

/-- Between references `null` does not matter. -/
theorem classifyReferences_congr (ha : q.types.strip a = q.types.strip a')
    (hb : q.types.strip b = q.types.strip b') :
    s.classifyReferences a b q = s.classifyReferences a' b' q := by
  unfold SymbolTable.classifyReferences
  rw [ofTypes_apply, ofTypes_apply, ha, hb]

/-- **The conversion between two references.** -/
theorem classify_of_isReference (ha : q.types.isReference a = true)
    (hb : q.types.isReference b = true) :
    (s.classify a b q).1 = (s.classifyReferences a b q).1 := by
  rw [classify_apply, classifyWithin_succ_apply, isError_of_isReference ha,
    isError_of_isReference hb, ha, hb]
  by_cases hab : a = b
  · subst hab
    rw [beq_self_eq_true, classifyReferences_self]
    rfl
  · rw [beq_false_of_ne hab]
    rfl

/-! ## Where one type is no reference -/

/-- **The conversion where one of two types is no reference.** `null` is taken away, and what
remains is put into or out of it. -/
theorem classify_of_not_isReference (hsa : q.types.SingleNull a) (hsb : q.types.SingleNull b)
    (ha : a.isError = false) (hb : b.isError = false) (hne : a ≠ b)
    (hr : (q.types.isReference a && q.types.isReference b) = false) :
    (s.classify a b q).1 =
      (Conversion.bare q.types (q.types.strip a) (q.types.strip b)).withNull
        (q.types.nullableInner? a).isSome (q.types.nullableInner? b).isSome := by
  obtain ⟨n, hn⟩ := exists_size q.types
  have hstrip : s.classifyWithin (n + 1) (q.types.strip a) (q.types.strip b) q =
      (.bare q.types (q.types.strip a) (q.types.strip b), q) := by
    refine classifyWithin_bare (hsa.isError_strip ha) (hsb.isError_strip hb) ?_
      hsa.nullableInner?_strip hsb.nullableInner?_strip
    rw [hsa.isReference_strip, hsb.isReference_strip, hr]
  rw [classify_apply, hn]
  cases hb' : q.types.nullableInner? b with
  | some inner =>
    rw [classifyWithin_into ha hb hne hr hb', ← strip_of_nullableInner? hb', hstrip]
    rfl
  | none =>
    cases ha' : q.types.nullableInner? a with
    | some inner =>
      have hb'' := strip_of_nullableInner?_eq_none hb'
      rw [classifyWithin_outOf ha hb hne hr ha' hb']
      rw [strip_of_nullableInner? ha', hb''] at hstrip ⊢
      rw [hstrip]
      rfl
    | none =>
      rw [classifyWithin_bare ha hb hr ha' hb', strip_of_nullableInner?_eq_none ha',
        strip_of_nullableInner?_eq_none hb']
      rfl

/-- A reference without `null` and a type that is no reference have to do with each other only where
`object` stands for a value. -/
theorem bare_cases {r x : TypeId} (hr : q.types.isReference r = true)
    (hn : q.types.nullableInner? r = none) (hx : q.types.isReference x = false)
    (hs : q.types.SingleNull x) (he : x.isError = false) :
    (r = .object ∧ q.types.IsValue x) ∧
        Conversion.bare q.types (q.types.strip x) r = .boxing ∧
        Conversion.bare q.types r (q.types.strip x) = .explicitOnly ∨
      ¬ (r = .object ∧ q.types.IsValue x) ∧
        Conversion.bare q.types (q.types.strip x) r = .none ∧
        Conversion.bare q.types r (q.types.strip x) = .none := by
  have hx' := hs.isReference_strip.trans hx
  have he' := hs.isError_strip he
  unfold TypeTable.IsValue
  generalize q.types.strip x = y at hx' he'
  have hne : y ≠ r := by
    rintro rfl
    rw [hr] at hx'
    cases hx'
  rw [Conversion.bare, Conversion.bare, if_neg hne, if_neg hne.symm]
  cases hk : q.types.intrinsic? y with
  | none =>
    refine .inr ⟨?_, rfl, by cases q.types.intrinsic? r <;> rfl⟩
    rintro ⟨-, k, -, rfl⟩
    rw [intrinsic?_eq_some_iff.2 rfl] at hk
    cases hk
  | some k =>
    obtain rfl := intrinsic?_eq_some_iff.1 hk
    rcases intrinsic?_of_isReference hr hn with rfl | rfl | hnone
    · rw [show q.types.intrinsic? .object = some .object from intrinsic?_eq_some_iff.2 rfl]
      cases k with
      | int | long | double | bool => exact .inl ⟨⟨rfl, _, rfl, rfl⟩, rfl, rfl⟩
      | void =>
        refine .inr ⟨?_, rfl, rfl⟩
        rintro ⟨-, k, hv, hk⟩
        rw [← Intrinsic.id_injective hk] at hv
        cases hv
      | error => cases he'
      | object => exact absurd rfl hne
      | string => exact absurd (isReference_string q.types) (ne_true_of_eq_false hx')
    · rw [show q.types.intrinsic? .string = some .string from intrinsic?_eq_some_iff.2 rfl]
      refine .inr ⟨nofun, ?_⟩
      cases k with
      | string => exact absurd rfl hne
      | _ => exact ⟨rfl, rfl⟩
    · rw [hnone]
      refine .inr ⟨?_, rfl, rfl⟩
      rintro ⟨rfl, -⟩
      rw [show q.types.intrinsic? .object = some .object from intrinsic?_eq_some_iff.2 rfl] at hnone
      cases hnone

/-! ## References with and without `null` -/

section References

variable {x r r' : TypeId}

theorem classify_of_isError (s : SymbolTable) (q : QueryState)
    (h : a.isError = true ∨ b.isError = true) : s.classify a b q = (.identity, q) := by
  rw [classify_apply, classifyWithin_succ_apply]
  refine if_pos ?_
  rcases h with h | h
  · rw [h]
    rfl
  · rw [h, Bool.or_true]
    rfl

theorem isReference_of_nullableInner? (hr : q.types.isReference r = true)
    (hn : q.types.nullableInner? r = none) (hr' : q.types.nullableInner? r' = some r) :
    q.types.isReference r' = true := by
  rw [TypeTable.isReference, strip_of_nullableInner?_eq_none hn] at hr
  rw [TypeTable.isReference, strip_of_nullableInner? hr', hr]

theorem ne_of_isReference (hr : q.types.isReference r = true) (hx : q.types.isReference x = false) :
    r ≠ x := by
  rintro rfl
  rw [hr] at hx
  cases hx

/-- As a source, a reference with `null` converts as it does without. -/
theorem classify_source_eq (hr : q.types.isReference r = true)
    (hn : q.types.nullableInner? r = none) (hr' : q.types.nullableInner? r' = some r) :
    (s.classify r' x q).1 = (s.classify r x q).1 := by
  have href := isReference_of_nullableInner? hr hn hr'
  have hstrip : q.types.strip r' = q.types.strip r := by
    rw [strip_of_nullableInner? hr', strip_of_nullableInner?_eq_none hn]
  by_cases he : x.isError = true
  · rw [classify_of_isError s q (.inr he), classify_of_isError s q (.inr he)]
  rw [Bool.not_eq_true] at he
  cases hx : q.types.isReference x with
  | true =>
    rw [classify_of_isReference href hx, classify_of_isReference hr hx,
      classifyReferences_congr hstrip rfl]
  | false =>
    obtain ⟨n, hsize⟩ := exists_size q.types
    have hand : ∀ r, (q.types.isReference r && q.types.isReference x) = false := fun r => by
      rw [hx, Bool.and_false]
    have he' := isError_of_isReference href
    have hne' := ne_of_isReference href hx
    rw [classify_apply, classify_apply, hsize]
    cases hi : q.types.nullableInner? x with
    | some inner =>
      rw [classifyWithin_into he' he hne' (hand r') hi,
        classifyWithin_into (isError_of_isReference hr) he (ne_of_isReference hr hx) (hand r) hi,
        hstrip]
    | none =>
      rw [classifyWithin_outOf he' he hne' (hand r') hr' hi,
        classifyWithin_bare (isError_of_isReference hr) he (hand r) hn hi,
        classifyWithin_bare (isError_of_isReference hr) he (hand r) hn hi]
      rcases bare_cases hr hn hx (.of_none hi) he with ⟨-, -, hb⟩ | ⟨-, -, hb⟩
      · rw [strip_of_nullableInner?_eq_none hi] at hb
        rw [hb]
        rfl
      · rw [strip_of_nullableInner?_eq_none hi] at hb
        rw [hb]
        rfl

/-- As a target, a reference with `null` is reached as it is without, except that a value is no
longer put into a box for `object`. -/
theorem classify_target_cases (hr : q.types.isReference r = true)
    (hn : q.types.nullableInner? r = none) (hr' : q.types.nullableInner? r' = some r)
    (hs : q.types.SingleNull x) :
    (r = .object ∧ q.types.IsValue x) ∧ (s.classify x r q).1 = .boxing ∧
        (s.classify x r' q).1 = .explicitOnly ∨
      ¬ (r = .object ∧ q.types.IsValue x) ∧ (s.classify x r' q).1 = (s.classify x r q).1 := by
  have href := isReference_of_nullableInner? hr hn hr'
  have hstrip : q.types.strip r' = q.types.strip r := by
    rw [strip_of_nullableInner? hr', strip_of_nullableInner?_eq_none hn]
  by_cases he : x.isError = true
  · refine .inr ⟨?_, ?_⟩
    · rintro ⟨-, hv⟩
      rw [hv.isError] at he
      cases he
    · rw [classify_of_isError s q (.inl he), classify_of_isError s q (.inl he)]
  rw [Bool.not_eq_true] at he
  cases hx : q.types.isReference x with
  | true =>
    refine .inr ⟨?_, ?_⟩
    · rintro ⟨-, hv⟩
      rw [hv.isReference] at hx
      cases hx
    · rw [classify_of_isReference hx href, classify_of_isReference hx hr,
        classifyReferences_congr rfl hstrip]
  | false =>
    have hand : ∀ r, (q.types.isReference x && q.types.isReference r) = false := fun r => by
      rw [hx, Bool.false_and]
    have hsr' : q.types.SingleNull r' := by
      intro inner h
      rw [hr'] at h
      cases h
      exact ⟨isError_of_isReference hr, hn⟩
    have hto := classify_of_not_isReference (s := s) hs (.of_none hn) he (isError_of_isReference hr)
      (ne_of_isReference hr hx).symm (hand r)
    have hto' := classify_of_not_isReference (s := s) hs hsr' he (isError_of_isReference href)
      (ne_of_isReference href hx).symm (hand r')
    rw [hn, strip_of_nullableInner?_eq_none hn] at hto
    rw [hr', strip_of_nullableInner? hr'] at hto'
    rw [hto, hto']
    rcases bare_cases hr hn hx hs he with ⟨hobj, hb, -⟩ | ⟨hobj, hb, -⟩
    · rw [hb]
      exact .inl ⟨hobj, by cases q.types.nullableInner? x <;> rfl, rfl⟩
    · rw [hb]
      exact .inr ⟨hobj, by simp⟩

/-- **Where `null` in a reference makes a difference.** As a source, a reference with `null`
converts as it does without. As a target, it is reached as it is without `null`, except that a value
is put into a box for `object`, and has to be asked for where it is `object` with `null`. -/
theorem classify_nullable_iff (s : SymbolTable) (q : QueryState) {x r r' : TypeId}
    (hr : q.types.isReference r = true) (hn : q.types.nullableInner? r = none)
    (hr' : q.types.nullableInner? r' = some r) :
    (s.classify r' x q).1 = (s.classify r x q).1 ∧
      (q.types.SingleNull x →
        ((s.classify x r' q).1 = (s.classify x r q).1 ↔ ¬ (r = .object ∧ q.types.IsValue x)) ∧
        (r = .object ∧ q.types.IsValue x →
          (s.classify x r q).1 = .boxing ∧ (s.classify x r' q).1 = .explicitOnly)) := by
  refine ⟨classify_source_eq hr hn hr', fun hs => ?_⟩
  rcases classify_target_cases (s := s) hr hn hr' hs with ⟨hobj, hbox, hexp⟩ | ⟨hobj, heq⟩
  · refine ⟨⟨fun h => ?_, fun h => (h hobj).elim⟩, fun _ => ⟨hbox, hexp⟩⟩
    rw [hbox, hexp] at h
    cases h
  · exact ⟨⟨fun _ => hobj, fun _ => heq⟩, fun h => (hobj h).elim⟩

end References

end Classify

/-- The intrinsic types, and `object` and `string` with `null`. -/
def nullTypes : TypeTable where
  shapes := #[.intrinsic .error, .intrinsic .void, .intrinsic .object, .intrinsic .int,
    .intrinsic .long, .intrinsic .double, .intrinsic .bool, .intrinsic .string,
    .nullable Intrinsic.object.id, .nullable Intrinsic.string.id]
  getElem?_id := by intro k; cases k <;> rfl
  nodup := by decide

/-- A number is put into a box for `object`, and has to be asked for where that has `null`. -/
theorem classify_object_of_int :
    nullTypes.nullableInner? ⟨8⟩ = some .object ∧
    (SymbolTable.classify {} Intrinsic.int.id .object { types := nullTypes }).1 = .boxing ∧
    (SymbolTable.classify {} Intrinsic.int.id ⟨8⟩ { types := nullTypes }).1 = .explicitOnly := by
  decide +kernel

/-- For a text, `null` makes no difference. -/
theorem classify_nullable_iff_of_string :
    (nullTypes.isReference .string = true ∧ nullTypes.nullableInner? .string = none ∧
      nullTypes.nullableInner? ⟨9⟩ = some .string ∧ nullTypes.SingleNull .object) ∧
    (SymbolTable.classify {} ⟨9⟩ .object { types := nullTypes }).1 =
      (SymbolTable.classify {} .string .object { types := nullTypes }).1 ∧
    ((SymbolTable.classify {} .object ⟨9⟩ { types := nullTypes }).1 =
        (SymbolTable.classify {} .object .string { types := nullTypes }).1 ↔
      ¬ (TypeId.string = .object ∧ nullTypes.IsValue .object)) := by
  have hr : nullTypes.isReference .string = true := by decide +kernel
  have hn : nullTypes.nullableInner? .string = none := by decide +kernel
  have hr' : nullTypes.nullableInner? ⟨9⟩ = some .string := by decide +kernel
  have hs : nullTypes.SingleNull .object := nofun
  have h := classify_nullable_iff {} { types := nullTypes } (x := .object) hr hn hr'
  exact ⟨⟨hr, hn, hr', hs⟩, h.1, (h.2 hs).1⟩

end UpdateExpr
