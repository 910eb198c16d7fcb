import UpdateExpr.Text.NameTable
import UpdateExpr.Symbol.Member
import UpdateExpr.Ty.Table

/-!
# Symbol tables

A symbol table holds every definition and every member, numbered in the order in which they were
added. A change that names a definition or member that is not there leaves all others as they are.

## Main definitions

* `Definition`: a class or interface
* `SymbolTable`, and the functions that add to it
* `SymbolTable.findDefinition?`, `SymbolTable.membersNamed`: what a name stands for
* `SymbolTable.declaredType`: a definition applied to its own type parameters

## Main results

* `SymbolTable.definition?_addDefinition`, `SymbolTable.member?_addMember`: what is added is found
  under the number it got
-/

namespace UpdateExpr

/-- A class or interface. -/
structure Definition where
  name : String
  isInterface : Bool := false
  /-- The names of the type parameters. -/
  typeParams : List String := []
  /-- The base of a class, over its own type parameters; `object` where it is left out. -/
  base? : Option TypeId := none
  /-- What a class implements, or an interface extends. -/
  interfaces : List TypeId := []
  /-- The members declared here, in the order of declaration. -/
  members : List MemberId := []
  /-- The name of a base that could not be loaded. -/
  unresolvedBase? : Option String := none
  deriving DecidableEq, Repr, Inhabited

/-- The definitions and members, and the names they were given. -/
structure SymbolTable where
  definitions : Array Definition := #[]
  members : Array Member := #[]
  names : NameTable := .empty
  deriving DecidableEq, Repr, Inhabited

namespace SymbolTable

/-- The definition with a number. -/
def definition? (s : SymbolTable) (d : DefId) : Option Definition :=
  s.definitions[d.index]?

/-- The member with a number. -/
def member? (s : SymbolTable) (m : MemberId) : Option Member :=
  s.members[m.index]?

/-! ### Building a table -/

/-- The table with a definition changed. -/
def modifyDefinition (s : SymbolTable) (d : DefId) (change : Definition → Definition) :
    SymbolTable :=
  { s with definitions := s.definitions.modify d.index change }

/-- The table with a member changed. -/
def modifyMember (s : SymbolTable) (m : MemberId) (change : Member → Member) : SymbolTable :=
  { s with members := s.members.modify m.index change }

/-- The number of a new definition, and the table with it. -/
def addDefinition (s : SymbolTable) (name : String) (isInterface : Bool)
    (typeParams : List String) : DefId × SymbolTable :=
  (⟨s.definitions.size⟩,
    { s with
      definitions := s.definitions.push { name, isInterface, typeParams }
      names := typeParams.foldl NameTable.insert (s.names.insert name) })

/-- The table with a base for a class. -/
def setBase (s : SymbolTable) (d : DefId) (base : TypeId) : SymbolTable :=
  s.modifyDefinition d fun c => { c with base? := some base }

/-- The table with one more interface for a definition. -/
def addInterface (s : SymbolTable) (d : DefId) (ty : TypeId) : SymbolTable :=
  s.modifyDefinition d fun c => { c with interfaces := c.interfaces ++ [ty] }

/-- The table with the name of a base that could not be loaded. -/
def setUnresolvedBase (s : SymbolTable) (d : DefId) (name : String) : SymbolTable :=
  { s with names := s.names.insert name }.modifyDefinition d fun c =>
    { c with unresolvedBase? := some name }

/-- The number of a new member, and the table with it. The member exists even where its owner does
not. -/
def addMember (s : SymbolTable) (owner : DefId) (name : String) (shape : MemberShape) :
    MemberId × SymbolTable :=
  let m : MemberId := ⟨s.members.size⟩
  (m,
    { s with
      members := s.members.push { owner, name, shape }
      names := s.names.insert name }.modifyDefinition owner fun c =>
        { c with members := c.members ++ [m] })

/-- The table with another visibility for a member. -/
def setVisibility (s : SymbolTable) (m : MemberId) (visibility : Visibility) : SymbolTable :=
  s.modifyMember m fun member => { member with visibility }

/-- The table with a member made static or not. -/
def setStatic (s : SymbolTable) (m : MemberId) (isStatic : Bool) : SymbolTable :=
  s.modifyMember m fun member => { member with isStatic }

/-- The table with a member marked as an override or not. -/
def setOverride (s : SymbolTable) (m : MemberId) (isOverride : Bool) : SymbolTable :=
  s.modifyMember m fun member => { member with isOverride }

/-- The table with another number of type parameters for a method. -/
def setTypeParams (s : SymbolTable) (m : MemberId) (count : Nat) : SymbolTable :=
  s.modifyMember m (·.withTypeParams count)

/-! ### Questions -/

/-- The definition last added under a name. -/
def findDefinition? (s : SymbolTable) (name : String) : Option DefId :=
  ((List.range s.definitions.size).reverse.map DefId.mk).find? fun d =>
    (s.definition? d).any (·.name == name)

/-- The members of a name that a definition declares, in the order of declaration. -/
def membersNamed (s : SymbolTable) (d : DefId) (name : String) : List MemberId :=
  match s.definition? d with
  | some c => c.members.filter fun m => (s.member? m).any (·.name == name)
  | none => []

/-- Whether a type, without its `null`, is an interface. -/
def isInterface (s : SymbolTable) (t : TypeTable) (ty : TypeId) : Bool :=
  match t.defAndArgs? (t.strip ty) with
  | some (d, _) => (s.definition? d).any (·.isInterface)
  | none => false

/-- The type of an object of a definition, seen from within: the definition applied to its own type
parameters. -/
def declaredType (s : SymbolTable) (d : DefId) : TypeM TypeId := do
  let count := ((s.definition? d).map (·.typeParams.length)).getD 0
  let params ← (List.range count).mapM (TypeTable.parameter d)
  TypeTable.applied d params

/-- **A new definition is found under its number.** -/
theorem definition?_addDefinition (s : SymbolTable) (name : String) (isInterface : Bool)
    (typeParams : List String) :
    (s.addDefinition name isInterface typeParams).2.definition?
      (s.addDefinition name isInterface typeParams).1 =
      some { name, isInterface, typeParams } := by
  simp [addDefinition, definition?]

/-- **A new member is found under its number.** -/
theorem member?_addMember (s : SymbolTable) (owner : DefId) (name : String)
    (shape : MemberShape) :
    (s.addMember owner name shape).2.member? (s.addMember owner name shape).1 =
      some { owner, name, shape } := by
  simp [addMember, member?, modifyDefinition]

/-- A change of one member leaves the others. -/
theorem member?_modifyMember_of_ne {s : SymbolTable} {m other : MemberId} (h : other ≠ m)
    (change : Member → Member) : (s.modifyMember m change).member? other = s.member? other := by
  have hi : m.index ≠ other.index := fun e => h (by cases m; cases other; simp_all)
  simp [modifyMember, member?, Array.getElem?_modify, hi]

end SymbolTable

end UpdateExpr
