import UpdateExpr.Ty.Basic

/-!
# Scopes

A scope holds the local variables that an expression may name, and the definition whose code the
expression belongs to. Each declaration gets a number of its own; a name stands for its latest
declaration.

## Main definitions

* `Scope.declare`: one more local variable
* `Scope.lookup?`: the variable that a name stands for

## Main results

* `Scope.lookup?_declare`, `Scope.lookup?_declare_of_ne`: a declaration is seen under its name, and
  changes no other name
-/

namespace UpdateExpr

/-- The number of a declaration. -/
structure LocalId where
  index : Nat
  deriving DecidableEq, Repr, Inhabited

/-- A local variable. -/
structure LocalVar where
  id : LocalId
  ty : TypeId
  deriving DecidableEq, Repr, Inhabited

/-- The local variables by name, and the definition around the expression. -/
structure Scope where
  locals : List (String × LocalVar) := []
  /-- The number of declarations so far. -/
  declared : Nat := 0
  containing? : Option DefId := none
  deriving DecidableEq, Repr, Inhabited

namespace Scope

/-- The number of a new declaration, and the scope with it in the place of any earlier one of the
name. -/
def declare (s : Scope) (name : String) (ty : TypeId) : LocalId × Scope :=
  (⟨s.declared⟩,
    { s with
      locals := (name, ⟨⟨s.declared⟩, ty⟩) :: s.locals.filter (·.1 ≠ name)
      declared := s.declared + 1 })

/-- The variable that a name stands for. -/
def lookup? (s : Scope) (name : String) : Option LocalVar :=
  (s.locals.find? (·.1 == name)).map (·.2)

/-- The number of names that stand for a variable. -/
def size (s : Scope) : Nat :=
  s.locals.length

/-- **A name stands for its latest declaration.** -/
@[simp] theorem lookup?_declare (s : Scope) (name : String) (ty : TypeId) :
    (s.declare name ty).2.lookup? name = some ⟨(s.declare name ty).1, ty⟩ := by
  simp [declare, lookup?]

/-- **A declaration changes no other name.** -/
theorem lookup?_declare_of_ne {s : Scope} {name other : String} (h : other ≠ name) (ty : TypeId) :
    (s.declare name ty).2.lookup? other = s.lookup? other := by
  have hb : (name == other) = false := by simpa using Ne.symm h
  simp only [declare, lookup?, List.find?_cons, hb]
  rw [List.find?_filter]
  congr 2
  funext p
  by_cases hp : p.1 = other
  · simp [hp, h]
  · simp [hp]

end Scope

end UpdateExpr
