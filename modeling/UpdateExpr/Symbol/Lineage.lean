import UpdateExpr.Symbol.Query

/-!
# Bases and interfaces

A class has one base, and classes and interfaces have any number of interfaces. Tables of symbols
should hold no circle of bases; where one does, or where types grow without end from base to base,
the ways up still end, at a repeated type or at a limit.

## Main definitions

* `SymbolTable.baseType`: the base of a type
* `SymbolTable.baseChain`: a type with its bases, nearest first
* `SymbolTable.directInterfaces`, `SymbolTable.interfaceClosure`: the interfaces of a type, and all
  that are reached from it, nearest first
* `SymbolTable.derivesFromDefinition`: whether a definition is, or derives from, another
-/

namespace UpdateExpr

/-- The largest number of steps from base to base. -/
def maxBaseSteps : Nat := 64

namespace SymbolTable

/-- The base of a type, with its type arguments in place. Only classes have one: the one that is
declared, or else `object`. Where a base could not be loaded there is none, and a note is left. -/
def baseType (s : SymbolTable) (ty : TypeId) : QueryM (Option TypeId) := do
  match (← QueryM.types).defAndArgs? ty with
  | none => return none
  | some (d, args) =>
    match s.definition? d with
    | none => return none
    | some c =>
      if c.isInterface then return none
      else match c.unresolvedBase?, c.base? with
        | some missing, _ =>
          QueryM.note (.baseUnresolved missing c.name)
          return none
        | none, some base => return some (← Substitution.instantiate ⟨some d, args⟩ base)
        | none, none => return some .object

/-- The chain of a type, continued from the last one for at most a number of steps, and never to a
type that is in the chain. -/
def climb (s : SymbolTable) : Nat → List TypeId → TypeId → QueryM (List TypeId)
  | 0, chain, _ => pure chain
  | n + 1, chain, last => do
    match ← s.baseType last with
    | none => return chain
    | some base => if base ∈ chain then return chain else s.climb n (chain ++ [base]) base

/-- A type with its bases, nearest first. -/
def baseChain (s : SymbolTable) (ty : TypeId) : QueryM (List TypeId) :=
  s.climb maxBaseSteps [ty] ty

/-- The interfaces that the definition of a type names, with type arguments in place. -/
def directInterfaces (s : SymbolTable) (ty : TypeId) : QueryM (List TypeId) := do
  match (← QueryM.types).defAndArgs? ty with
  | none => return []
  | some (d, args) =>
    match s.definition? d with
    | none => return []
    | some c => Substitution.instantiateAll ⟨some d, args⟩ c.interfaces

/-- The types found, continued by at most a number of new ones from those that wait. -/
def spread (s : SymbolTable) : Nat → List TypeId → List TypeId → QueryM (List TypeId)
  | 0, found, _ => pure found
  | n + 1, found, waiting =>
    match waiting.dropWhile (· ∈ found) with
    | [] => pure found
    | ty :: rest => do
      let next ← s.directInterfaces ty
      s.spread n (found ++ [ty]) (rest ++ next)

/-- A type with all interfaces that are reached from it, breadth first. -/
def interfaceClosure (s : SymbolTable) (ty : TypeId) : QueryM (List TypeId) :=
  s.spread (maxBaseSteps + 1) [] [ty]

/-- Whether a definition is another or derives from it. -/
def derivesFromDefinition (s : SymbolTable) (d target : DefId) : QueryM Bool := do
  let start ← s.declaredType d
  let chain ← s.baseChain start
  let types ← QueryM.types
  return chain.any fun ty => (types.defAndArgs? ty).any (·.1 == target)

end SymbolTable

end UpdateExpr
