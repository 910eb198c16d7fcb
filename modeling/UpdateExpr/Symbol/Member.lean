import UpdateExpr.Ty.Basic

/-!
# Members

A member of a class or interface is a field, a property or a method. What can be done with one is
asked of the member, so that its kind matters here only.

## Main definitions

* `Member`: a member of a definition
* `Member.parameters`, `Member.valueType`, `Member.arity`: its types, and what it is called with
* `Member.isSettable`: whether a value can be stored in it
-/

namespace UpdateExpr

/-- The number of a member. -/
structure MemberId where
  index : Nat
  deriving DecidableEq, Repr, Inhabited

/-- Whose code may use a member. -/
inductive Visibility where
  | anyone
  /-- Code of the owner and of what derives from it. -/
  | descendants
  | ownerOnly
  deriving DecidableEq, Repr, Inhabited

/-- When a property may be set. -/
inductive Setter where
  | absent
  | always
  /-- While an object comes into being only. -/
  | initOnly
  deriving DecidableEq, Repr, Inhabited

/-- The kind of a member, with its types. -/
inductive MemberShape where
  | field (ty : TypeId) (readonly : Bool)
  | property (ty : TypeId) (setter : Setter)
  | method (params : List TypeId) (returnType : TypeId) (typeParams : Nat)
  deriving DecidableEq, Repr, Inhabited

/-- A member of a definition. -/
structure Member where
  owner : DefId
  name : String
  visibility : Visibility := .anyone
  isStatic : Bool := false
  isOverride : Bool := false
  shape : MemberShape
  deriving DecidableEq, Repr, Inhabited

namespace Member

/-- Whether a member is a method. Nothing else can be called. -/
def isMethod (m : Member) : Bool :=
  match m.shape with
  | .method _ _ _ => true
  | _ => false

/-- Whether a member is a field. -/
def isField (m : Member) : Bool :=
  match m.shape with
  | .field _ _ => true
  | _ => false

/-- The types of the parameters; a field or property has none. -/
def parameters (m : Member) : List TypeId :=
  match m.shape with
  | .method params _ _ => params
  | _ => []

/-- The type of the value that a member gives, read or called. -/
def valueType (m : Member) : TypeId :=
  match m.shape with
  | .field ty _ | .property ty _ => ty
  | .method _ returnType _ => returnType

/-- The number of type parameters that a member has of its own. -/
def arity (m : Member) : Nat :=
  match m.shape with
  | .method _ _ typeParams => typeParams
  | _ => 0

/-- Whether a value can be stored in a member, within an initializer or outside. -/
def isSettable (m : Member) (inInitializer : Bool) : Bool :=
  match m.shape with
  | .field _ readonly => !readonly
  | .property _ .always => true
  | .property _ .initOnly => inInitializer
  | .property _ .absent => false
  | .method _ _ _ => false

/-- The member with another number of type parameters, if it is a method. -/
def withTypeParams (m : Member) (count : Nat) : Member :=
  match m.shape with
  | .method params returnType _ => { m with shape := .method params returnType count }
  | _ => m

/-- What can be set outside can be set in an initializer. -/
theorem isSettable_mono {m : Member} (h : m.isSettable false = true) :
    m.isSettable true = true := by
  unfold isSettable at *
  split <;> simp_all

end Member

end UpdateExpr
