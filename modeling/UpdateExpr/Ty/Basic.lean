/-!
# Types by handle

A type is known by a handle, a number into a table of shapes. The first handles belong to the
intrinsic types, which every table holds; all other shapes name a definition or are built from
handles.

## Main definitions

* `TypeId`: a handle
* `DefId`: the number of a class or interface
* `Intrinsic`: the types that need no definition
* `TypeShape`: what a handle stands for
-/

namespace UpdateExpr

/-- A handle of a type. -/
structure TypeId where
  index : Nat
  deriving DecidableEq, Repr, Inhabited

/-- The number of a definition, a class or an interface. -/
structure DefId where
  index : Nat
  deriving DecidableEq, Repr, Inhabited

/-- The types that need no definition. -/
inductive Intrinsic where
  /-- The type of what could not be bound; nothing more is reported about it. -/
  | error
  | void
  | object
  | int
  | long
  | double
  | bool
  | string
  deriving DecidableEq, Repr, Inhabited

namespace Intrinsic

/-- The intrinsic types, in the order of their handles. -/
def all : List Intrinsic :=
  [error, void, object, int, long, double, bool, string]

/-- The handle of an intrinsic type. -/
def id : Intrinsic → TypeId
  | error => ⟨0⟩
  | void => ⟨1⟩
  | object => ⟨2⟩
  | int => ⟨3⟩
  | long => ⟨4⟩
  | double => ⟨5⟩
  | bool => ⟨6⟩
  | string => ⟨7⟩

/-- The name by which messages call an intrinsic type. -/
def name : Intrinsic → String
  | error => "?"
  | void => "void"
  | object => "object"
  | int => "int"
  | long => "long"
  | double => "double"
  | bool => "bool"
  | string => "string"

/-- Numbers and truth values are values, not references. -/
def isValueType : Intrinsic → Bool
  | int | long | double | bool => true
  | error | void | object | string => false

/-- Each intrinsic type stands at the place of its handle. -/
@[simp] theorem all_getElem?_id (k : Intrinsic) : all[k.id.index]? = some k := by
  cases k <;> rfl

/-- The handle tells the intrinsic type. -/
theorem id_injective {k l : Intrinsic} (h : k.id = l.id) : k = l := by
  simpa using congrArg (fun i : TypeId => all[i.index]?) h

end Intrinsic

namespace TypeId

/-- The error type. -/
def error : TypeId := Intrinsic.error.id

/-- The type without values. -/
def void : TypeId := Intrinsic.void.id

/-- The type at the end of every line of bases. -/
def object : TypeId := Intrinsic.object.id

/-- The type of texts. -/
def string : TypeId := Intrinsic.string.id

/-- Whether a handle is that of the error type. -/
def isError (ty : TypeId) : Bool :=
  ty == error

/-- Whether a handle is that of an intrinsic type. -/
def isIntrinsic (ty : TypeId) : Bool :=
  ty.index < Intrinsic.all.length

/-- The least number that is at least `n` and above all of some handles. -/
def bound (n : Nat) (tys : List TypeId) : Nat :=
  tys.foldl (fun n ty => max n (ty.index + 1)) n

@[simp] theorem isError_error : error.isError = true := rfl

@[simp] theorem isIntrinsic_id (k : Intrinsic) : k.id.isIntrinsic = true := by
  cases k <;> rfl

/-- **A bound is at least the number that it starts from.** -/
theorem le_bound (n : Nat) (tys : List TypeId) : n ≤ bound n tys := by
  unfold bound
  induction tys generalizing n with
  | nil => exact Nat.le_refl n
  | cons ty rest ih => exact Nat.le_trans (Nat.le_max_left _ _) (ih _)

/-- **A bound is above each of its handles.** -/
theorem index_lt_bound {n : Nat} {tys : List TypeId} {ty : TypeId} (h : ty ∈ tys) :
    ty.index < bound n tys := by
  induction tys generalizing n with
  | nil => simp at h
  | cons first rest ih =>
    rcases List.mem_cons.1 h with rfl | h
    · exact Nat.lt_of_lt_of_le (Nat.le_max_right n (ty.index + 1)) (le_bound _ rest)
    · exact ih h

end TypeId

/-- What a handle stands for. -/
inductive TypeShape where
  | intrinsic (kind : Intrinsic)
  /-- A class or interface without type arguments. -/
  | plain (definition : DefId)
  /-- A class or interface with type arguments. -/
  | applied (definition : DefId) (args : List TypeId)
  /-- A type parameter of a definition. -/
  | parameter (owner : DefId) (index : Nat)
  /-- A type with `null` added. -/
  | nullable (inner : TypeId)
  deriving DecidableEq, Repr, Inhabited

namespace TypeShape

/-- The definition that a shape names at its top. -/
def definition? : TypeShape → Option DefId
  | plain d | applied d _ => some d
  | intrinsic _ | parameter _ _ | nullable _ => none

/-- The handles that a shape is built from. -/
def parts : TypeShape → List TypeId
  | applied _ args => args
  | nullable inner => [inner]
  | intrinsic _ | plain _ | parameter _ _ => []

end TypeShape

end UpdateExpr
