import UpdateExpr.Bound.Scope
import UpdateExpr.Number.Binary64
import UpdateExpr.Symbol.Conversion
import UpdateExpr.Symbol.Lookup
import UpdateExpr.Syntax.Node

/-!
# Bound expressions

Binding gives each expression a type and the members it stands for. What could not be bound is kept
as a bad expression with its parts, so that binding can go on around it.

## Main definitions

* `Constant`: the value of a literal
* `BoundInfo`: what every bound expression has: its node, its type, and whether it has errors
* `BoundExpr`: a bound expression
* `BoundExpr.symbol?`: the member that an expression stands for
* `BoundExpr.children`: its parts
* `BoundExpr.isSame`: equality, with numbers compared as numbers
-/

namespace UpdateExpr

/-- The value of a literal. -/
inductive Constant where
  | int (value : Int)
  | long (value : Int)
  | double (value : Binary64)
  | text (value : String)
  | bool (value : Bool)
  | null
  deriving DecidableEq, Repr, Inhabited

/-- What every bound expression has. -/
structure BoundInfo where
  /-- The node that was bound. -/
  node : NodeRef
  /-- The type; `null` and groups of methods have none. -/
  ty? : Option TypeId
  hasErrors : Bool := false
  deriving DecidableEq, Repr, Inhabited

/-- A bound expression. -/
inductive BoundExpr where
  | literal (info : BoundInfo) (value : Constant)
  | localVar (info : BoundInfo) (id : LocalId)
  | field (info : BoundInfo) (receiver : BoundExpr) (member : MemberId)
  | property (info : BoundInfo) (receiver : BoundExpr) (member : MemberId)
  /-- Methods of a name, before one of them is called. -/
  | methodGroup (info : BoundInfo) (receiver : BoundExpr) (methods : List Candidate)
  | call (info : BoundInfo) (receiver : BoundExpr) (method : MemberId)
  | conversion (info : BoundInfo) (operand : BoundExpr) (kind : Conversion)
  /-- The copy that an update changes, while its initializers are bound. -/
  | placeholder (info : BoundInfo)
  | assignment (info : BoundInfo) (left right : BoundExpr)
  /-- A copy of the receiver with some members changed. The clone method makes the copy; each
  entry has the member it sets, if that is known, and the value. -/
  | update (info : BoundInfo) (receiver : BoundExpr) (clone? : Option MemberId)
    (entries : List (Option MemberId × BoundExpr)) (failed : Bool)
  /-- What could not be bound, with the members it may have meant. -/
  | bad (info : BoundInfo) (candidates : List MemberId) (children : List BoundExpr)
  deriving Repr

namespace BoundExpr

/-- An expression of the error type for what could not be bound. -/
def failure (node : NodeRef) (candidates : List MemberId := []) (children : List BoundExpr := []) :
    BoundExpr :=
  .bad ⟨node, some .error, true⟩ candidates children

instance : Inhabited BoundExpr :=
  ⟨failure none⟩

/-- What every bound expression has. -/
def info : BoundExpr → BoundInfo
  | literal i _ | localVar i _ | field i _ _ | property i _ _ | methodGroup i _ _ | call i _ _
  | conversion i _ _ | placeholder i | assignment i _ _ | update i _ _ _ _ | bad i _ _ => i

/-- The node that was bound. -/
def node (e : BoundExpr) : NodeRef :=
  e.info.node

/-- The type; `null` and groups of methods have none. -/
def ty? (e : BoundExpr) : Option TypeId :=
  e.info.ty?

/-- Whether an expression is marked as faulty. -/
def hasErrors (e : BoundExpr) : Bool :=
  e.info.hasErrors

/-- The expression with other information. -/
def setInfo (i : BoundInfo) : BoundExpr → BoundExpr
  | literal _ value => literal i value
  | localVar _ id => localVar i id
  | field _ receiver member => field i receiver member
  | property _ receiver member => property i receiver member
  | methodGroup _ receiver methods => methodGroup i receiver methods
  | call _ receiver method => call i receiver method
  | conversion _ operand kind => conversion i operand kind
  | placeholder _ => placeholder i
  | assignment _ left right => assignment i left right
  | update _ receiver clone? entries failed => update i receiver clone? entries failed
  | bad _ candidates children => bad i candidates children

/-- The expression, bound from another node. -/
def setNode (e : BoundExpr) (node : NodeRef) : BoundExpr :=
  e.setInfo { e.info with node }

/-- The expression, marked as faulty if there is a further reason for it. -/
def addErrors (e : BoundExpr) (faulty : Bool) : BoundExpr :=
  e.setInfo { e.info with hasErrors := e.hasErrors || faulty }

/-- The member that an expression stands for. A group of methods and a bad expression stand for one
only if there is no choice. -/
def symbol? : BoundExpr → Option MemberId
  | field _ _ member | property _ _ member | call _ _ member => some member
  | methodGroup _ _ methods => (theOnly? methods).map (·.member)
  | bad _ candidates _ => theOnly? candidates
  | _ => none

/-- Whether an expression is the literal `null`. -/
def isNull : BoundExpr → Bool
  | literal _ .null => true
  | _ => false

/-- Whether an expression has a type other than the error type. -/
def hasUsableType (e : BoundExpr) : Bool :=
  e.ty?.any (!·.isError)

/-- The expressions that an expression is made of, from left to right. -/
def children : BoundExpr → List BoundExpr
  | literal _ _ | localVar _ _ | placeholder _ => []
  | field _ receiver _ | property _ receiver _ | methodGroup _ receiver _ | call _ receiver _ =>
    [receiver]
  | conversion _ operand _ => [operand]
  | assignment _ left right => [left, right]
  | update _ receiver _ entries _ => receiver :: entries.map (·.2)
  | bad _ _ children => children

end BoundExpr

/-- Equality of constants; numbers are equal as numbers, so that both zeros are one. -/
def Constant.isSame : Constant → Constant → Bool
  | .double x, .double y => x.isSame y
  | a, b => a == b

namespace BoundExpr

mutual

/-- Equality of bound expressions, with numbers compared as numbers. -/
def isSame : BoundExpr → BoundExpr → Bool
  | literal i v, literal j w => i == j && v.isSame w
  | localVar i a, localVar j b => i == j && a == b
  | field i r m, field j s n => i == j && r.isSame s && m == n
  | property i r m, property j s n => i == j && r.isSame s && m == n
  | methodGroup i r ms, methodGroup j s ns => i == j && r.isSame s && ms == ns
  | call i r m, call j s n => i == j && r.isSame s && m == n
  | conversion i o k, conversion j p l => i == j && o.isSame p && k == l
  | placeholder i, placeholder j => i == j
  | assignment i l r, assignment j m s => i == j && l.isSame m && r.isSame s
  | update i r c es f, update j s d fs g =>
    i == j && r.isSame s && c == d && areSameEntries es fs && f == g
  | bad i cs es, bad j ds fs => i == j && cs == ds && areSame es fs
  | _, _ => false

/-- Equality of lists of bound expressions. -/
def areSame : List BoundExpr → List BoundExpr → Bool
  | [], [] => true
  | e :: es, f :: fs => e.isSame f && areSame es fs
  | _, _ => false

/-- Equality of the entries of updates. -/
def areSameEntries :
    List (Option MemberId × BoundExpr) → List (Option MemberId × BoundExpr) → Bool
  | [], [] => true
  | (m, e) :: es, (n, f) :: fs => m == n && e.isSame f && areSameEntries es fs
  | _, _ => false

end

@[simp] theorem info_setInfo (i : BoundInfo) (e : BoundExpr) : (e.setInfo i).info = i := by
  cases e <;> rfl

@[simp] theorem children_setInfo (i : BoundInfo) (e : BoundExpr) :
    (e.setInfo i).children = e.children := by
  cases e <;> rfl

@[simp] theorem symbol?_setInfo (i : BoundInfo) (e : BoundExpr) :
    (e.setInfo i).symbol? = e.symbol? := by
  cases e <;> rfl

@[simp] theorem hasErrors_addErrors (e : BoundExpr) (faulty : Bool) :
    (e.addErrors faulty).hasErrors = (e.hasErrors || faulty) := by
  simp [addErrors, hasErrors]

@[simp] theorem hasErrors_setNode (e : BoundExpr) (node : NodeRef) :
    (e.setNode node).hasErrors = e.hasErrors := by
  simp [setNode, hasErrors]

@[simp] theorem ty?_addErrors (e : BoundExpr) (faulty : Bool) :
    (e.addErrors faulty).ty? = e.ty? := by
  simp [addErrors, ty?]

@[simp] theorem ty?_setNode (e : BoundExpr) (node : NodeRef) : (e.setNode node).ty? = e.ty? := by
  simp [setNode, ty?]

@[simp] theorem hasErrors_failure (node : NodeRef) (candidates : List MemberId)
    (children : List BoundExpr) : (failure node candidates children).hasErrors = true := rfl

end BoundExpr

end UpdateExpr
