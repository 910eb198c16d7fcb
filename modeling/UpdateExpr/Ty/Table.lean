import UpdateExpr.Ty.Basic

/-!
# Tables of types

A table gives each shape one handle, so that two handles of a table are equal when their shapes
are. Asking for a shape adds it if it is new; handles that were given out keep their meaning.

## Main definitions

* `TypeTable`, `TypeM`: the shapes by handle, and a computation that may add some
* `TypeTable.intern`: the handle of a shape
* `TypeTable.plain`, `TypeTable.applied`, `TypeTable.parameter`, `TypeTable.nullable`: the handle of
  a type made from parts, in its one canonical shape
* `TypeTable.shape?`: what a handle stands for
* `TypeTable.horizon`: a number above all handles that a table knows or mentions

## Main results

* `TypeTable.shape?_intern`: the handle of a shape leads back to it
* `TypeTable.shape?_injective`: two handles with one shape are equal
* `TypeTable.shape?_intern_of_lt`: asking for a shape changes no handle
* `TypeTable.index_lt_horizon`: the parts of a shape lie below the horizon
-/

namespace UpdateExpr

namespace Intrinsic

/-- The shapes of the intrinsic types. -/
def shapes : Array TypeShape :=
  (all.map TypeShape.intrinsic).toArray

theorem getElem?_shapes (k : Intrinsic) : shapes[k.id.index]? = some (.intrinsic k) := by
  cases k <;> rfl

theorem nodup_shapes : shapes.toList.Nodup := by
  decide

end Intrinsic

/-- Shapes, each at the place of its handle. -/
structure TypeTable where
  shapes : Array TypeShape := Intrinsic.shapes
  /-- Every table holds the intrinsic types, under their own handles. -/
  getElem?_id : ∀ k : Intrinsic, shapes[k.id.index]? = some (.intrinsic k) := by
    exact Intrinsic.getElem?_shapes
  /-- No shape has two handles. -/
  nodup : shapes.toList.Nodup := by exact Intrinsic.nodup_shapes
  deriving DecidableEq, Repr

instance : Inhabited TypeTable :=
  ⟨{}⟩

/-- A computation that may add types to a table. -/
abbrev TypeM := StateM TypeTable

namespace TypeTable

/-- The number of types, which is the handle of the next one. -/
def size (t : TypeTable) : Nat :=
  t.shapes.size

/-- What a handle stands for; nothing, if it was never given out. -/
def shape? (t : TypeTable) (ty : TypeId) : Option TypeShape :=
  t.shapes[ty.index]?

/-- A number above every handle of the table and above every handle that its shapes are built from.
A shape may be built from a handle that is not given out yet. -/
def horizon (t : TypeTable) : Nat :=
  TypeId.bound t.size (t.shapes.toList.flatMap TypeShape.parts)

/-- The table with a new shape, which gets the next handle. -/
def push (t : TypeTable) (shape : TypeShape) (h : shape ∉ t.shapes) : TypeTable where
  shapes := t.shapes.push shape
  getElem?_id k := by
    obtain ⟨hk, -⟩ := Array.getElem?_eq_some_iff.1 (t.getElem?_id k)
    rw [Array.getElem?_push_lt hk, ← Array.getElem?_eq_getElem hk, t.getElem?_id]
  nodup := by
    rw [Array.toList_push, List.nodup_append]
    refine ⟨t.nodup, by simp, fun a ha b hb => ?_⟩
    rw [List.mem_singleton] at hb
    exact fun e => h (hb ▸ e ▸ Array.mem_toList_iff.1 ha)

/-- The handle of a shape; a new shape gets the next one. -/
def intern (shape : TypeShape) : TypeM TypeId := fun t =>
  match h : t.shapes.findIdx? (· == shape) with
  | some n => (⟨n⟩, t)
  | none =>
    (⟨t.size⟩, t.push shape fun hm => by simpa using Array.findIdx?_eq_none_iff.1 h shape hm)

/-- The type of a definition without type arguments. -/
def plain (d : DefId) : TypeM TypeId :=
  intern (.plain d)

/-- A definition with type arguments; without any, it is the plain type. -/
def applied (d : DefId) (args : List TypeId) : TypeM TypeId :=
  match args with
  | [] => plain d
  | _ :: _ => intern (.applied d args)

/-- A type parameter of a definition. -/
def parameter (owner : DefId) (index : Nat) : TypeM TypeId :=
  intern (.parameter owner index)

/-- The intrinsic type that a handle stands for. -/
def intrinsic? (t : TypeTable) (ty : TypeId) : Option Intrinsic :=
  match t.shape? ty with
  | some (.intrinsic k) => some k
  | _ => none

/-- The type without `null` of one that has it. -/
def nullableInner? (t : TypeTable) (ty : TypeId) : Option TypeId :=
  match t.shape? ty with
  | some (.nullable inner) => some inner
  | _ => none

/-- A type without its `null`, if it has one. -/
def strip (t : TypeTable) (ty : TypeId) : TypeId :=
  (t.nullableInner? ty).getD ty

/-- A type with `null` added. The error type, and a type that has `null`, stay as they are. -/
def nullable (ty : TypeId) : TypeM TypeId := fun t =>
  if ty.isError || (t.nullableInner? ty).isSome then (ty, t) else intern (.nullable ty) t

/-- The definition and the type arguments of a class or interface type. -/
def defAndArgs? (t : TypeTable) (ty : TypeId) : Option (DefId × List TypeId) :=
  match t.shape? ty with
  | some (.plain d) => some (d, [])
  | some (.applied d args) => some (d, args)
  | _ => none

/-- Whether values of a type are references: `object`, texts, classes and interfaces, with or
without `null`. -/
def isReference (t : TypeTable) (ty : TypeId) : Bool :=
  let ty := t.strip ty
  ty == .object || ty == .string || (t.defAndArgs? ty).isSome

/-- **Every table holds the intrinsic types.** -/
@[simp] theorem shape?_id (t : TypeTable) (k : Intrinsic) : t.shape? k.id = some (.intrinsic k) :=
  t.getElem?_id k

/-- **Two handles with one shape are equal.** -/
theorem shape?_injective {t : TypeTable} {a b : TypeId} {shape : TypeShape}
    (ha : t.shape? a = some shape) (hb : t.shape? b = some shape) : a = b := by
  obtain ⟨hi, -⟩ := Array.getElem?_eq_some_iff.1 ha
  have h : a.index = b.index := (List.getElem?_inj (by simpa using hi) t.nodup).1 (by
    simp only [Array.getElem?_toList]
    exact ha.trans hb.symm)
  cases a
  cases b
  exact congrArg TypeId.mk h

/-- **The handle of a shape leads back to it.** -/
@[simp] theorem shape?_intern (t : TypeTable) (shape : TypeShape) :
    (intern shape t).2.shape? (intern shape t).1 = some shape := by
  unfold intern shape?
  split
  · next n h =>
    obtain ⟨hn, hp, -⟩ := Array.findIdx?_eq_some_iff_getElem.1 h
    simpa [Array.getElem?_eq_getElem hn] using hp
  · simp [size, push]

/-- **Asking for a shape changes no handle.** -/
theorem shape?_intern_of_lt {t : TypeTable} {ty : TypeId} (h : ty.index < t.size)
    (shape : TypeShape) : (intern shape t).2.shape? ty = t.shape? ty := by
  unfold intern
  split
  · rfl
  · simp only [shape?, push]
    rw [Array.getElem?_push_lt h, Array.getElem?_eq_getElem h]

/-- **The parts of a shape lie below the horizon.** -/
theorem index_lt_horizon {t : TypeTable} {ty part : TypeId} {shape : TypeShape}
    (h : t.shape? ty = some shape) (hp : part ∈ shape.parts) : part.index < t.horizon := by
  refine TypeId.index_lt_bound (List.mem_flatMap.2 ⟨shape, ?_, hp⟩)
  exact Array.mem_toList_iff.2 (Array.mem_of_getElem? h)

end TypeTable

end UpdateExpr
