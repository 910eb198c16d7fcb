import Mathlib.Data.List.Forall2
import UpdateExpr.Proofs.Ty.Identity
import UpdateExpr.Ty.Tree

/-!
# Trees of interned types

The tree of a type is built with a limit on its levels, which is taken from the size of the table.
An interned type ends before the limit. So its tree is made of the trees of its parts, stays the
same while the table grows, and tells the type from all others of its table.

## Main definitions

* `TypeShape.Alike`: two shapes are the same but for their parts, which are related one by one
* `TypeShape.tree`: the tree of a shape from the trees of its parts

## Main results

* `TypeShape.tree_eq_tree_iff`: two shapes have one tree where they are alike
* `TypeTable.Interned.expand_eq`: the tree of an interned type is that of its shape
* `TypeTable.Interned.expand_eq_of_le`: the tree stays the same while the table grows
* `TypeTable.Interned.expand_injective`: two interned types of a table with one tree are equal
-/

namespace UpdateExpr

namespace TypeShape

/-- Two shapes are the same but for their parts, which are related one by one. -/
inductive Alike (r : TypeId → TypeId → Prop) : TypeShape → TypeShape → Prop
  | intrinsic (k : Intrinsic) : Alike r (.intrinsic k) (.intrinsic k)
  | plain (d : DefId) : Alike r (.plain d) (.plain d)
  | applied (d : DefId) {args args' : List TypeId} (h : List.Forall₂ r args args') :
    Alike r (.applied d args) (.applied d args')
  | parameter (owner : DefId) (index : Nat) :
    Alike r (.parameter owner index) (.parameter owner index)
  | nullable {inner inner' : TypeId} (h : r inner inner') :
    Alike r (.nullable inner) (.nullable inner')

variable {r r' : TypeId → TypeId → Prop} {f g : TypeId → Ty} {shape shape' : TypeShape}

/-- A relation may use that it is about parts of the two shapes. -/
theorem Alike.imp_mem (h : shape.Alike r shape')
    (hr : ∀ a ∈ shape.parts, ∀ b ∈ shape'.parts, r a b → r' a b) : shape.Alike r' shape' := by
  cases h with
  | intrinsic k => exact .intrinsic k
  | plain d => exact .plain d
  | parameter owner index => exact .parameter owner index
  | nullable h => exact .nullable (hr _ (by simp [parts]) _ (by simp [parts]) h)
  | applied d h =>
    refine .applied d (List.forall₂_iff_zip.2 ⟨h.length_eq, fun hab => ?_⟩)
    obtain ⟨ha, hb⟩ := List.of_mem_zip hab
    exact hr _ ha _ hb ((List.forall₂_iff_zip.1 h).2 hab)

theorem Alike.imp (h : shape.Alike r shape') (hr : ∀ a b, r a b → r' a b) :
    shape.Alike r' shape' :=
  h.imp_mem fun a _ b _ => hr a b

theorem Alike.parts (h : shape.Alike r shape') : List.Forall₂ r shape.parts shape'.parts := by
  cases h with
  | applied d h => exact h
  | nullable h => exact .cons h .nil
  | _ => exact .nil

theorem Alike.eq (h : shape.Alike Eq shape') : shape = shape' := by
  cases h with
  | applied d h => rw [List.forall₂_eq_eq_eq] at h; rw [h]
  | nullable h => rw [h]
  | _ => rfl

/-- The tree of a shape, from the trees of its parts. -/
def tree (f : TypeId → Ty) : TypeShape → Ty
  | intrinsic k => .intrinsic k
  | plain d => .plain d
  | applied d args => .applied d (args.map f)
  | parameter owner index => .parameter owner index
  | nullable inner => .nullable (f inner)

/-- **Two shapes have one tree where they are alike**, with parts that have one tree. -/
theorem tree_eq_tree_iff :
    shape.tree f = shape'.tree g ↔ shape.Alike (fun a b => f a = g b) shape' := by
  constructor
  · intro h
    cases shape with
    | intrinsic k =>
      cases shape' with
      | intrinsic l => cases h; exact .intrinsic k
      | _ => cases h
    | plain d =>
      cases shape' with
      | plain e => cases h; exact .plain d
      | _ => cases h
    | applied d args =>
      cases shape' with
      | applied e args' =>
        obtain ⟨rfl, hargs⟩ := Ty.applied.inj h
        refine .applied d ?_
        rwa [← List.forall₂_eq_eq_eq, List.forall₂_map_left_iff, List.forall₂_map_right_iff]
          at hargs
      | _ => cases h
    | parameter owner index =>
      cases shape' with
      | parameter owner' index' => cases h; exact .parameter owner index
      | _ => cases h
    | nullable inner =>
      cases shape' with
      | nullable inner' => exact .nullable (Ty.nullable.inj h)
      | _ => cases h
  · intro h
    cases h with
    | applied d h =>
      refine congrArg (Ty.applied d) ?_
      rwa [← List.forall₂_eq_eq_eq, List.forall₂_map_left_iff, List.forall₂_map_right_iff]
    | nullable h => exact congrArg Ty.nullable h
    | _ => rfl

theorem tree_congr (h : ∀ part ∈ shape.parts, f part = g part) : shape.tree f = shape.tree g := by
  cases shape with
  | applied d args => exact congrArg (Ty.applied d) (List.map_congr_left h)
  | nullable inner => exact congrArg Ty.nullable (h inner (by simp [parts]))
  | _ => rfl

end TypeShape

namespace TypeTable

variable {t t' : TypeTable} {a b : TypeId} {shape : TypeShape} {m m' n : Nat}

theorem expandTo_succ (hs : t.shape? a = some shape) (n : Nat) :
    t.expandTo (n + 1) a = shape.tree (t.expandTo n) := by
  simp only [expandTo, hs]
  cases shape <;> rfl

/-- Limits that a type does not reach give the same tree. -/
theorem expandTo_eq_of_le (hle : t ≤ t') (h : t.Within n a) (hm : n ≤ m) (hm' : n ≤ m') :
    t'.expandTo m' a = t.expandTo m a := by
  induction n generalizing a m m' with
  | zero => exact h.elim
  | succ n ih =>
    obtain ⟨k, rfl⟩ : ∃ k, m = k + 1 := ⟨m - 1, by omega⟩
    obtain ⟨k', rfl⟩ : ∃ k', m' = k' + 1 := ⟨m' - 1, by omega⟩
    obtain ⟨shape, hs, hp⟩ := h
    rw [expandTo_succ hs, expandTo_succ (shape?_of_le hle hs)]
    exact TypeShape.tree_congr fun part hpart => ih (hp part hpart) (by omega) (by omega)

/-- **The tree of an interned type stays the same while the table grows.** -/
theorem Interned.expand_eq_of_le (h : t.Interned a) (hle : t ≤ t') : t'.expand a = t.expand a :=
  expandTo_eq_of_le hle h.within_size (Nat.le_succ _)
    ((size_le_of_le hle).trans (Nat.le_succ _))

/-- **The tree of an interned type is that of its shape.** -/
theorem Interned.expand_eq (h : t.Interned a) (hs : t.shape? a = some shape) :
    t.expand a = shape.tree t.expand := by
  rw [expand, expandTo_succ hs]
  refine TypeShape.tree_congr fun part hpart => ?_
  -- A part ends within the size of the table, so one level more makes no difference.
  have hw := (hereditary_interned.part h hs hpart).within_size
  exact expandTo_eq_of_le (le_refl t) hw (Nat.le_succ _) (le_refl _)

/-- **Two interned types of a table with one tree are equal.** -/
theorem Interned.expand_injective (ha : t.Interned a) (hb : t.Interned b)
    (h : t.expand a = t.expand b) : a = b := by
  induction ha generalizing b with
  | @intro a shape hs hp ih =>
    obtain ⟨shape', hs', hp'⟩ := hb.shape?
    rw [Interned.expand_eq (.intro hs hp) hs, hb.expand_eq hs'] at h
    have heq : shape = shape' :=
      ((TypeShape.tree_eq_tree_iff.1 h).imp_mem fun part hpart part' hpart' =>
        ih part hpart (hp' part' hpart')).eq
    subst heq
    exact shape?_injective hs hs'

end TypeTable

end UpdateExpr
