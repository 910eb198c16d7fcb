import UpdateExpr.Number.Literal

/-!
# Syntax nodes

The syntax of one expression is an arena of nodes that refer to each other by number. A node read
from a text refers to nodes before it only; an arena that was put together by hand may hold any
reference.

## Main definitions

* `NodeRef`: a reference to a node, or to none
* `NodeShape`, `Node`: what a node is, and where it stands in the text
* `Arena`, `Arena.push`, `Arena.get?`: the nodes, adding one, and reading one
* `Arena.skipParens`: the expression inside any parentheses

## Main results

* `Arena.get?_push_size`, `Arena.get?_push_of_lt`: a new node is found, and the others stay
-/

namespace UpdateExpr

/-- The number of a node, or none where a node is left out. -/
abbrev NodeRef := Option Nat

/-- What is known of a list of initializers besides its entries. -/
structure ListSpan where
  span : Span := {}
  trailingComma : Bool := false
  deriving DecidableEq, Repr, Inhabited

/-- What a node is, with references to its parts. -/
inductive NodeShape where
  /-- A token without any data, such as a keyword that is a value. -/
  | token (kind : TokenKind)
  /-- A name; the empty one where a name is missing. -/
  | identifier (name : String)
  | literal (value : LiteralValue) (text : String) (flags : TokenFlags)
  /-- A member of an expression. -/
  | access (target member : NodeRef)
  /-- A call without arguments. -/
  | call (target : NodeRef)
  | paren (inner : NodeRef)
  /-- A copy of the receiver with some members changed. -/
  | update (receiver : NodeRef) (entries : List NodeRef) (list : ListSpan)
  /-- One change of an update; without a name where only a value is written. -/
  | initializer (name value : NodeRef)
  deriving DecidableEq, Repr, Inhabited

namespace NodeShape

/-- The number of a kind of node: that of the token, and from `100` on for what has parts. -/
def code : NodeShape → Nat
  | token kind => kind.code
  | identifier _ => TokenKind.identifier.code
  | literal value _ _ => value.kind.code
  | access _ _ => 100
  | call _ => 101
  | paren _ => 102
  | update _ _ _ => 103
  | initializer _ _ => 104

/-- Whether a node holds more than its kind. -/
def hasData : NodeShape → Bool
  | token _ => false
  | _ => true

/-- The nodes that a node refers to, in the order of the text. -/
def parts : NodeShape → List NodeRef
  | token _ | identifier _ | literal _ _ _ => []
  | access target member => [target, member]
  | call target => [target]
  | paren inner => [inner]
  | update receiver entries _ => receiver :: entries
  | initializer name value => [name, value]

end NodeShape

/-- A node at its place in the text. -/
structure Node where
  shape : NodeShape
  span : Span := {}
  /-- The node stands for something that the text lacks. -/
  missing : Bool := false
  deriving DecidableEq, Repr, Inhabited

/-- A missing identifier at a position. -/
def Node.hole (position : Nat) : Node :=
  ⟨.identifier "", .point position, true⟩

/-- The nodes of one expression. -/
structure Arena where
  nodes : Array Node := #[]
  deriving DecidableEq, Repr, Inhabited

namespace Arena

/-- The number of nodes, which is the number of the next node. -/
def size (a : Arena) : Nat :=
  a.nodes.size

/-- The arena with one more node. -/
def push (a : Arena) (n : Node) : Arena :=
  ⟨a.nodes.push n⟩

/-- The node with a number. -/
def get? (a : Arena) (r : NodeRef) : Option Node :=
  r.bind fun n => a.nodes[n]?

/-- What the node with a number is. -/
def shape? (a : Arena) (r : NodeRef) : Option NodeShape :=
  (a.get? r).map Node.shape

/-- The place of a node; an empty one for a reference to none. -/
def span (a : Arena) (r : NodeRef) : Span :=
  ((a.get? r).map Node.span).getD {}

/-- The name of an identifier; the empty one for any other node, and where the name is missing. -/
def name (a : Arena) (r : NodeRef) : String :=
  match a.shape? r with
  | some (.identifier name) => name
  | _ => ""

/-- The first reference on the way into parentheses that leads to something else, or the one
reached after `n` steps. -/
def skipParensFrom (a : Arena) : Nat → NodeRef → NodeRef
  | 0, r => r
  | n + 1, r =>
    match a.shape? r with
    | some (.paren inner) => a.skipParensFrom n inner
    | _ => r

/-- The expression inside any parentheses around it. A way that never repeats a node is no longer
than the arena. -/
def skipParens (a : Arena) (r : NodeRef) : NodeRef :=
  a.skipParensFrom (a.size + 1) r

@[simp] theorem size_push (a : Arena) (n : Node) : (a.push n).size = a.size + 1 := by
  simp [size, push]

@[simp] theorem get?_none (a : Arena) : a.get? none = none := rfl

/-- **A new node is found under the next number.** -/
@[simp] theorem get?_push_size (a : Arena) (n : Node) : (a.push n).get? (some a.size) = some n := by
  simp [get?, push, size]

/-- **Later nodes change no earlier one.** -/
theorem get?_push_of_lt {a : Arena} {i : Nat} (h : i < a.size) (n : Node) :
    (a.push n).get? (some i) = a.get? (some i) := by
  simp only [get?, push, Option.bind_some]
  rw [Array.getElem?_push_lt h, Array.getElem?_eq_getElem h]

end Arena

end UpdateExpr
