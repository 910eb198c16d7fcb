import UpdateExpr.Ty.Table

/-!
# Identity of types

Two types are the same exactly when their handles are. Where `null` does not matter, types are the
same that differ by it only, at the top or within type arguments.

## Main definitions

* `Strictness`: whether `null` matters
* `TypeTable.areIdentical`: whether two types are the same

## Main results

* `TypeTable.areIdentical_self`: a type is the same as itself
-/

namespace UpdateExpr

/-- Whether the presence of `null` tells types apart. -/
inductive Strictness where
  | exact
  | ignoreNull
  deriving DecidableEq, Repr, Inhabited

namespace TypeTable

/-- Whether two types differ by `null` only, down to `n` levels of type arguments. -/
def sameButNull (t : TypeTable) : Nat → TypeId → TypeId → Bool
  | 0, a, b => a == b
  | n + 1, a, b =>
    let a := t.strip a
    let b := t.strip b
    a == b ||
      match t.shape? a, t.shape? b with
      | some (.applied d xs), some (.applied e ys) =>
        d == e && xs.length == ys.length &&
          (xs.zip ys).all fun (x, y) => x == y || t.sameButNull n x y
      | _, _ => false

/-- Whether two types are the same. A way down to the parts of both that meets no pair of handles
twice has no more levels than there are pairs. -/
def areIdentical (t : TypeTable) (strictness : Strictness) (a b : TypeId) : Bool :=
  a == b ||
    match strictness with
    | .exact => false
    | .ignoreNull => t.sameButNull ((t.size + 1) * (t.size + 1)) a b

/-- **A type is the same as itself.** -/
@[simp] theorem areIdentical_self (t : TypeTable) (strictness : Strictness) (a : TypeId) :
    t.areIdentical strictness a a = true := by
  simp [areIdentical]

/-- Exactly the same types have one handle. -/
@[simp] theorem areIdentical_exact (t : TypeTable) (a b : TypeId) :
    t.areIdentical .exact a b = (a == b) := by
  simp [areIdentical]

end TypeTable

end UpdateExpr
