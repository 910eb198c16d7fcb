import UpdateExpr.Syntax.Node

/-!
# Syntax trees

An expression as a tree, and its nodes laid out in an arena: the parts of a node come before it, in
the order of the text, so the whole expression is the last node.

## Main definitions

* `Identifier`, `Initializer`, `SyntaxTree`: names, the changes of an update, and expressions
* `SyntaxTree.layOut`: the nodes of a tree added to an arena

## Main results

* `SyntaxTree.size_layOut`: a tree adds one node for each of its parts
* `SyntaxTree.layOut_fst_add_one`: the whole is the last node
-/

namespace UpdateExpr

/-- A name in the text; one that is missing is empty. -/
structure Identifier where
  name : String
  span : Span
  missing : Bool := false
  deriving DecidableEq, Repr, Inhabited

/-- A missing name at a position. -/
def Identifier.hole (position : Nat) : Identifier :=
  ⟨"", .point position, true⟩

/-- One entry of an update: a value, and the name of the member that gets it. -/
structure Initializer (α : Type) where
  name : Option Identifier
  value : α
  span : Span

/-- An expression, with the place of each part. -/
inductive SyntaxTree where
  | identifier (id : Identifier)
  | literal (value : LiteralValue) (text : String) (flags : TokenFlags) (span : Span)
  /-- A keyword that is a value. -/
  | keyword (kind : TokenKind) (span : Span)
  | access (target : SyntaxTree) (member : Identifier) (span : Span)
  | call (target : SyntaxTree) (span : Span)
  | paren (inner : SyntaxTree) (span : Span)
  | update (receiver : SyntaxTree) (entries : List (Initializer SyntaxTree)) (list : ListSpan)
    (span : Span)

instance : Inhabited SyntaxTree :=
  ⟨.identifier default⟩

namespace SyntaxTree

/-- An expression that is missing at a position. -/
def hole (position : Nat) : SyntaxTree :=
  .identifier (.hole position)

/-- The place of an expression. -/
def span : SyntaxTree → Span
  | identifier id => id.span
  | literal _ _ _ span | keyword _ span | access _ _ span | call _ span | paren _ span
  | update _ _ _ span => span

end SyntaxTree

/-! ## Layout -/

/-- The node of a name. -/
def Identifier.node (id : Identifier) : Node :=
  ⟨.identifier id.name, id.span, id.missing⟩

/-- An arena with one more node, and its number. -/
def Arena.add (n : Node) (a : Arena) : Nat × Arena :=
  (a.size, a.push n)

/-- An arena with the node of a name that may be left out. -/
def Arena.addName (id : Option Identifier) (a : Arena) : NodeRef × Arena :=
  match id with
  | none => (none, a)
  | some id => (some a.size, a.push id.node)

namespace SyntaxTree

mutual

/-- The nodes of a tree added to an arena, parts first, and the number of the whole. -/
def layOut : SyntaxTree → Arena → Nat × Arena
  | identifier id, a => a.add id.node
  | literal value text flags span, a => a.add ⟨.literal value text flags, span, false⟩
  | keyword kind span, a => a.add ⟨.token kind, span, false⟩
  | access target member span, a =>
    let (t, a) := layOut target a
    let (m, a) := a.add member.node
    a.add ⟨.access (some t) (some m), span, false⟩
  | call target span, a =>
    let (t, a) := layOut target a
    a.add ⟨.call (some t), span, false⟩
  | paren inner span, a =>
    let (i, a) := layOut inner a
    a.add ⟨.paren (some i), span, false⟩
  | update receiver entries list span, a =>
    let (r, a) := layOut receiver a
    let (es, a) := layOutEntries entries a
    a.add ⟨.update (some r) es list, span, false⟩

/-- The nodes of some initializers added to an arena, and the number of each. -/
def layOutEntries : List (Initializer SyntaxTree) → Arena → List NodeRef × Arena
  | [], a => ([], a)
  | ⟨name, value, span⟩ :: entries, a =>
    let (n, a) := a.addName name
    let (v, a) := layOut value a
    let (e, a) := a.add ⟨.initializer n (some v), span, false⟩
    let (es, a) := layOutEntries entries a
    (some e :: es, a)

end

mutual

/-- The number of nodes of a tree. -/
def nodeCount : SyntaxTree → Nat
  | identifier _ | literal _ _ _ _ | keyword _ _ => 1
  | access target _ _ => nodeCount target + 2
  | call target _ => nodeCount target + 1
  | paren inner _ => nodeCount inner + 1
  | update receiver entries _ _ => nodeCount receiver + entryCount entries + 1

/-- The number of nodes of some initializers. -/
def entryCount : List (Initializer SyntaxTree) → Nat
  | [] => 0
  | ⟨name, value, _⟩ :: entries =>
    name.toList.length + nodeCount value + 1 + entryCount entries

end

/-- An arena that holds one tree, and the number of the tree. -/
def toArena (t : SyntaxTree) : Nat × Arena :=
  t.layOut {}

theorem size_addName (id : Option Identifier) (a : Arena) :
    (a.addName id).2.size = a.size + id.toList.length := by
  cases id <;> simp [Arena.addName]

mutual

/-- **A tree adds one node for each of its parts.** -/
theorem size_layOut : ∀ (t : SyntaxTree) (a : Arena),
    (t.layOut a).2.size = a.size + t.nodeCount
  | identifier _, a | literal _ _ _ _, a | keyword _ _, a => by
    simp [layOut, nodeCount, Arena.add]
  | access target _ _, a => by
    simp [layOut, nodeCount, Arena.add, size_layOut target a, Nat.add_assoc]
  | call target _, a | paren target _, a => by
    simp [layOut, nodeCount, Arena.add, size_layOut target a, Nat.add_assoc]
  | update receiver entries _ _, a => by
    simp [layOut, nodeCount, Arena.add, size_layOut receiver a, size_layOutEntries entries,
      Nat.add_assoc]

theorem size_layOutEntries : ∀ (entries : List (Initializer SyntaxTree)) (a : Arena),
    (layOutEntries entries a).2.size = a.size + entryCount entries
  | [], a => rfl
  | ⟨name, value, _⟩ :: entries, a => by
    simp [layOutEntries, entryCount, Arena.add, size_layOutEntries entries, size_layOut value,
      size_addName, Nat.add_assoc]

end

/-- **The whole is the last node.** -/
theorem layOut_fst_add_one (t : SyntaxTree) (a : Arena) :
    (t.layOut a).1 + 1 = (t.layOut a).2.size := by
  cases t <;> simp [layOut, Arena.add]

end SyntaxTree

end UpdateExpr
