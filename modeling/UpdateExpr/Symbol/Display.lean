import UpdateExpr.Symbol.Table
import UpdateExpr.Ty.Tree

/-!
# Names for readers

Messages name types and members as they are written in declarations: `Box<int>`, `int?`, `Point.X`,
`Point.Clone()`.

## Main definitions

* `SymbolTable.displayType`: the name of a type
* `SymbolTable.displayMember`: the name of a member
-/

namespace UpdateExpr

namespace SymbolTable

/-- The name of a definition; a mark for one that is not there. -/
def displayDefinition (s : SymbolTable) (d : DefId) : String :=
  ((s.definition? d).map (·.name)).getD "?"

/-- The name of a type parameter; one that has no name gets a number. -/
def displayParameter (s : SymbolTable) (owner : DefId) (index : Nat) : String :=
  ((s.definition? owner).bind (·.typeParams[index]?)).getD ("T" ++ toString index)

end SymbolTable

mutual

/-- The name of a type. -/
def Ty.display (s : SymbolTable) : Ty → String
  | .unknown _ => "?"
  | .intrinsic k => k.name
  | .plain d => s.displayDefinition d
  | .applied d args =>
    s.displayDefinition d ++ "<" ++ ", ".intercalate (Ty.displayAll s args) ++ ">"
  | .parameter owner index => s.displayParameter owner index
  | .nullable inner => inner.display s ++ "?"

/-- The names of some types. -/
def Ty.displayAll (s : SymbolTable) : List Ty → List String
  | [] => []
  | ty :: rest => ty.display s :: Ty.displayAll s rest

end

namespace SymbolTable

/-- The name of a type. -/
def displayType (s : SymbolTable) (t : TypeTable) (ty : TypeId) : String :=
  (t.expand ty).display s

/-- The name of a member, that of its owner in front; a method shows the types of its
parameters. -/
def displayMember (s : SymbolTable) (t : TypeTable) (id : MemberId) : String :=
  match s.member? id with
  | none => "?"
  | some m =>
    let name := s.displayDefinition m.owner ++ "." ++ m.name
    if m.isMethod then
      name ++ "(" ++ ", ".intercalate (m.parameters.map (s.displayType t)) ++ ")"
    else name

end SymbolTable

end UpdateExpr
