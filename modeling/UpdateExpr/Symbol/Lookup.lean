import UpdateExpr.Symbol.Lineage

/-!
# Member lookup

The members of a name are looked for on the levels of a type: a class and its bases, nearest first,
or an interface and all that it extends. Not every member on the way is seen.

* A field or property hides the levels below it.
* A field or property is hidden by a method on a level above it.
* A method of a class is hidden by one with the same parameters on a level above it.

Members of one level never hide each other, and methods of interfaces hide no methods. Each member
that is seen gets a verdict on how usable it is; an outcome keeps those with the best verdict.

## Main definitions

* `Verdict`, `Candidate`, `Sighting`: how usable a member is, and a member that was seen
* `LookupQuery`: what is looked for
* `SymbolTable.isAccessible`, `SymbolTable.judge`: whether code may use a member, and its verdict
* `SymbolTable.lookup`: the outcome for a type

## Main results

* `Verdict.rank_best`: the better verdict has the higher rank
* `Lookup.verdict_of_mem_ofSightings`: the candidates are members that reached the verdict
-/

namespace UpdateExpr

/-- How usable a member is, from worst to best. -/
inductive Verdict where
  /-- There is no member. -/
  | absent
  | wrongArity
  | notInvocable
  | staticMember
  | inaccessible
  | viable
  deriving DecidableEq, Repr, Inhabited

/-- The place of a verdict among all, counted from the worst. -/
def Verdict.rank : Verdict → Nat
  | absent => 0
  | wrongArity => 1
  | notInvocable => 2
  | staticMember => 3
  | inaccessible => 4
  | viable => 5

/-- The better of two verdicts. -/
def Verdict.best (a b : Verdict) : Verdict :=
  if a.rank < b.rank then b else a

/-- The rank tells the verdict. -/
theorem Verdict.rank_injective {a b : Verdict} (h : a.rank = b.rank) : a = b := by
  cases a <;> cases b <;> simp [rank] at h ⊢

/-- **The better verdict has the higher rank.** -/
@[simp] theorem Verdict.rank_best (a b : Verdict) : (a.best b).rank = max a.rank b.rank := by
  unfold best
  split <;> omega

/-- A member, with the types it has for the receiver. -/
structure Candidate where
  member : MemberId
  /-- The type of the value that it gives. -/
  ty : TypeId
  params : List TypeId := []
  deriving DecidableEq, Repr, Inhabited

/-- What tells methods of one name apart. -/
structure Signature where
  arity : Nat
  params : List TypeId
  deriving DecidableEq, Repr, Inhabited

/-- A member that was seen on its level. -/
structure Sighting where
  verdict : Verdict
  candidate : Candidate
  /-- The signature of a method; none for a field or property. -/
  signature? : Option Signature
  deriving DecidableEq, Repr, Inhabited

/-- What is looked for, and from where. -/
structure LookupQuery where
  name : String
  /-- The number of type arguments. -/
  arity : Nat := 0
  /-- Static members are not usable. -/
  instanceOnly : Bool := false
  /-- Fields and properties are not usable. -/
  invocableOnly : Bool := false
  /-- The definition whose code asks. -/
  asking? : Option DefId := none
  deriving DecidableEq, Repr, Inhabited

/-- The element of a list that has one only. -/
def theOnly? {α : Type} : List α → Option α
  | [a] => some a
  | _ => none

/-- The best verdict that was reached, and the members that reached it, nearest first. -/
structure Lookup where
  verdict : Verdict := .absent
  candidates : List Candidate := []
  deriving DecidableEq, Repr, Inhabited

namespace Lookup

/-- The outcome of all that was seen. -/
def ofSightings (seen : List Sighting) : Lookup :=
  let verdict := (seen.map (·.verdict)).foldl Verdict.best .absent
  { verdict
    candidates := (seen.filter (·.verdict == verdict)).map (·.candidate) }

/-- **The candidates are members that reached the verdict.** -/
theorem verdict_of_mem_ofSightings {seen : List Sighting} {c : Candidate}
    (h : c ∈ (ofSightings seen).candidates) :
    ∃ g ∈ seen, g.candidate = c ∧ g.verdict = (ofSightings seen).verdict := by
  simp only [ofSightings, List.mem_map, List.mem_filter, beq_iff_eq] at h
  obtain ⟨g, ⟨hg, hv⟩, hc⟩ := h
  exact ⟨g, hg, hc, hv⟩

/-- Whether there is a usable member. -/
def isViable (l : Lookup) : Bool :=
  l.verdict == .viable

/-- The only candidate, whatever its verdict. -/
def only? (l : Lookup) : Option Candidate :=
  theOnly? l.candidates

/-- The candidates that can be called without arguments. -/
def parameterless (l : Lookup) : List Candidate :=
  l.candidates.filter (·.params.isEmpty)

end Lookup

namespace SymbolTable

/-- Whether code of a definition, or code outside of any, may use a member. -/
def isAccessible (s : SymbolTable) (m : Member) (asking? : Option DefId) : QueryM Bool :=
  match m.visibility, asking? with
  | .anyone, _ => pure true
  | .ownerOnly, _ => pure (asking? == some m.owner)
  | .descendants, some d => s.derivesFromDefinition d m.owner
  | .descendants, none => pure false

/-- The verdict on a member; the first objection counts. -/
def judge (s : SymbolTable) (query : LookupQuery) (m : Member) : QueryM Verdict := do
  if m.arity ≠ query.arity then return .wrongArity
  else if query.invocableOnly && !m.isMethod then return .notInvocable
  else if query.instanceOnly && m.isStatic then return .staticMember
  else if ← s.isAccessible m query.asking? then return .viable
  else return .inaccessible

/-- Whether a member is hidden by the methods above it. Only classes hide methods. -/
def isHidden (inClass : Bool) (above : List Signature) (signature? : Option Signature) : Bool :=
  match signature? with
  | some signature => inClass && above.contains signature
  | none => !above.isEmpty

/-- A member seen from a level where `σ` holds, unless methods above hide it. -/
def sight (s : SymbolTable) (query : LookupQuery) (inClass : Bool) (above : List Signature)
    (σ : Substitution) (id : MemberId) : QueryM (Option Sighting) := do
  match s.member? id with
  | none => return none
  | some m =>
    let params ← σ.instantiateAll m.parameters
    let signature? := if m.isMethod then some ⟨m.arity, params⟩ else none
    if isHidden inClass above signature? then return none
    else
      let verdict ← s.judge query m
      let ty ← σ.instantiate m.valueType
      return some ⟨verdict, ⟨id, ty, params⟩, signature?⟩

/-- What is seen on one level. -/
def sightLevel (s : SymbolTable) (query : LookupQuery) (inClass : Bool) (above : List Signature)
    (level : TypeId) : QueryM (List Sighting) := do
  let types ← QueryM.types
  match types.defAndArgs? level with
  | none => return []
  | some (d, _) =>
    (s.membersNamed d query.name).filterMapM
      (s.sight query inClass above (.ofType types level))

/-- What is seen on some levels, with the signatures of the methods above them. -/
def sightLevels (s : SymbolTable) (query : LookupQuery) (inClass : Bool) :
    List Signature → List TypeId → QueryM (List Sighting)
  | _, [] => pure []
  | above, level :: below => do
    let seen ← s.sightLevel query inClass above level
    if seen.any (·.signature?.isNone) then return seen
    else
      let rest ← s.sightLevels query inClass (above ++ seen.filterMap (·.signature?)) below
      return seen ++ rest

/-- The levels of a type: those of an interface are all that it extends, those of a class are its
bases. -/
def levels (s : SymbolTable) (ty : TypeId) : QueryM (List TypeId) := do
  if s.isInterface (← QueryM.types) ty then s.interfaceClosure ty else s.baseChain ty

/-- The outcome of looking for a member in a type, without its `null`. -/
def lookup (s : SymbolTable) (ty : TypeId) (query : LookupQuery) : QueryM Lookup := do
  let types ← QueryM.types
  let start := types.strip ty
  match types.defAndArgs? start with
  | none => return {}
  | some _ =>
    let inClass := !s.isInterface types start
    let levels ← s.levels start
    return .ofSightings (← s.sightLevels query inClass [] levels)

end SymbolTable

end UpdateExpr
