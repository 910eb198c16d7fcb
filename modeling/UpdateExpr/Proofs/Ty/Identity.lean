import UpdateExpr.Proofs.Ty.Steady
import UpdateExpr.Ty.Identity

/-!
# Identity does not depend on growth

Types that are the same but for `null` are compared down to their parts, with a limit from the size
of the table. An interned type ends before the limit, so the comparison comes out the same in every
table that has grown from its own. It also comes out the same the other way round, and types that
are the same apply the same definition.

## Main results

* `TypeTable.sameButNull_eq_of_le`: limits that a type does not reach give the same
* `Later.areIdentical_eq`: types are the same at a later time exactly where they are now
* `TypeTable.areIdentical_comm`: to be the same is symmetric
* `TypeTable.areIdentical_cases`: what two types have in common that are the same
-/

namespace UpdateExpr

namespace TypeTable

variable {t t' : TypeTable} {a b : TypeId} {m m' n : Nat}

theorem Within.strip (h : t.Within n a) : t.Within n (t.strip a) := by
  unfold TypeTable.strip nullableInner?
  split
  · next inner hs =>
    cases n with
    | zero => exact h.elim
    | succ n =>
      obtain ⟨shape, hs', hp⟩ := h
      obtain rfl := Option.some.inj (hs.symm.trans hs')
      exact (hp inner (by simp [TypeShape.parts])).succ
  · exact h

theorem Within.interned (h : t.Within n a) : t.Interned a := by
  induction n generalizing a with
  | zero => exact h.elim
  | succ n ih =>
    obtain ⟨shape, hs, hp⟩ := h
    exact .intro hs fun part hpart => ih (hp part hpart)

/-- **Limits that a type does not reach give the same**, in its table and in those that have grown
from it. -/
theorem sameButNull_eq_of_le (hle : t ≤ t') (ha : t.Within n a) (hb : t.Interned b) (hm : n ≤ m)
    (hm' : n ≤ m') : t'.sameButNull m' a b = t.sameButNull m a b := by
  induction n generalizing a b m m' with
  | zero => exact ha.elim
  | succ n ih =>
    obtain ⟨k, rfl⟩ : ∃ k, m = k + 1 := ⟨m - 1, by omega⟩
    obtain ⟨k', rfl⟩ : ∃ k', m' = k' + 1 := ⟨m' - 1, by omega⟩
    have hlater : Later Interned t t' := ⟨hle, .inr id⟩
    have ha' := ha.strip
    have hb' := hereditary_interned.strip hb
    unfold sameButNull
    rw [hlater.strip_eq ha.interned, hlater.strip_eq hb]
    dsimp only
    rw [hlater.shape?_eq ha'.interned, hlater.shape?_eq hb']
    cases hsa : t.shape? (t.strip a) with
    | none => rfl
    | some sa =>
      cases hsb : t.shape? (t.strip b) with
      | none => cases sa <;> rfl
      | some sb =>
        cases sa with
        | applied d xs =>
          cases sb with
          | applied e ys =>
            obtain ⟨shape, hs, hw⟩ := ha'
            obtain rfl := Option.some.inj (hsa.symm.trans hs)
            have hall : ∀ p ∈ xs.zip ys, t'.sameButNull k' p.1 p.2 = t.sameButNull k p.1 p.2 := by
              intro p hp
              obtain ⟨hx, hy⟩ := List.of_mem_zip hp
              exact ih (hw _ hx) (hereditary_interned.part hb' hsb hy) (by omega) (by omega)
            dsimp only
            congr 2
            rw [Bool.eq_iff_iff, List.all_eq_true, List.all_eq_true]
            exact forall₂_congr fun p hp => by rw [hall p hp]
          | _ => rfl
        | _ => rfl

/-! ## Both ways round -/

theorem all_zip_comm {α : Type} {p p' : α → α → Bool} (h : ∀ x y, p x y = p' y x) (xs ys : List α) :
    ((xs.zip ys).all fun (x, y) => p x y) = (ys.zip xs).all fun (x, y) => p' x y := by
  induction xs generalizing ys with
  | nil => cases ys <;> rfl
  | cons x xs ih =>
    cases ys with
    | nil => rfl
    | cons y ys =>
      rw [List.zip_cons_cons, List.zip_cons_cons, List.all_cons, List.all_cons, ih ys]
      dsimp only
      rw [h x y]

theorem sameButNull_comm (t : TypeTable) (n : Nat) (a b : TypeId) :
    t.sameButNull n a b = t.sameButNull n b a := by
  induction n generalizing a b with
  | zero => exact Bool.beq_comm
  | succ n ih =>
    have hargs : ∀ x y : TypeId,
        (x == y || t.sameButNull n x y) = (y == x || t.sameButNull n y x) :=
      fun x y => by rw [ih x y, Bool.beq_comm]
    unfold sameButNull
    dsimp only
    rw [Bool.beq_comm]
    congr 1
    cases t.shape? (t.strip a) with
    | none => rcases t.shape? (t.strip b) with _ | (_ | _ | _ | _ | _) <;> rfl
    | some sa =>
      cases sa with
      | applied d xs =>
        rcases t.shape? (t.strip b) with _ | (_ | _ | ⟨e, ys⟩ | _ | _)
        case some.applied =>
          dsimp only
          rw [all_zip_comm hargs, Bool.beq_comm, Bool.beq_comm (a := xs.length)]
        all_goals rfl
      | _ => rcases t.shape? (t.strip b) with _ | (_ | _ | _ | _ | _) <;> rfl

/-- **One type is the same as another exactly where that is the same as it.** -/
theorem areIdentical_comm (t : TypeTable) (strictness : Strictness) (a b : TypeId) :
    t.areIdentical strictness a b = t.areIdentical strictness b a := by
  unfold areIdentical
  rw [Bool.beq_comm]
  cases strictness with
  | exact => rfl
  | ignoreNull =>
    dsimp only
    rw [sameButNull_comm]

/-- **What two types have in common that are the same.** Without `null` they are equal, or else they
apply one definition to type arguments. -/
theorem areIdentical_cases {strictness : Strictness} (h : t.areIdentical strictness a b = true) :
    t.strip a = t.strip b ∨ ∃ d xs ys, t.shape? (t.strip a) = some (.applied d xs) ∧
      t.shape? (t.strip b) = some (.applied d ys) := by
  unfold areIdentical at h
  rcases (Bool.or_eq_true_iff ..).1 h with heq | hsame
  · rw [eq_of_beq heq]
    exact .inl rfl
  · cases strictness with
    | exact => cases hsame
    | ignoreNull =>
      obtain ⟨n, hn⟩ : ∃ n, (t.size + 1) * (t.size + 1) = n + 1 := ⟨_, rfl⟩
      dsimp only at hsame
      rw [hn, sameButNull] at hsame
      rcases (Bool.or_eq_true_iff ..).1 hsame with heq | happlied
      · exact .inl (eq_of_beq heq)
      · split at happlied
        · next d xs e ys hsa hsb =>
          obtain rfl : d = e := by
            simp only [Bool.and_eq_true, beq_iff_eq] at happlied
            exact happlied.1.1
          exact .inr ⟨d, xs, ys, hsa, hsb⟩
        · cases happlied

end TypeTable

variable {good : TypeTable → TypeId → Prop} {t t' : TypeTable} {a b : TypeId}

/-- **Types are the same at a later time exactly where they are now.** -/
theorem Later.areIdentical_eq (h : Later good t t') (ha : good t a) (hb : good t b)
    (strictness : Strictness) : t'.areIdentical strictness a b = t.areIdentical strictness a b := by
  obtain ⟨hle, rfl | hk⟩ := h
  · rfl
  · unfold TypeTable.areIdentical
    cases strictness with
    | exact => rfl
    | ignoreNull =>
      have hsize := TypeTable.size_le_of_le hle
      have hsquare : ∀ n, n ≤ (n + 1) * (n + 1) := fun n => by
        rw [Nat.add_mul, Nat.mul_add]
        omega
      dsimp only
      rw [TypeTable.sameButNull_eq_of_le hle (hk ha).within_size (hk hb) (hsquare _)
        (hsize.trans (hsquare _))]

end UpdateExpr
