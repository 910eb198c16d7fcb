import UpdateExpr.Syntax.Tree

/-!
# Nodes without their places

The skeleton of an arena is what is left of its nodes when every span is forgotten, and with them
the characters that a literal was written with: the kinds, the links to the parts, what is missing,
the names, the values and flags of literals, and the trailing commas. Two trees are laid out alike
if, behind arenas of one skeleton, they give arenas of one skeleton and the same number.

## Main definitions

* `Node.skeleton`, `Arena.skeleton`: nodes without their places
* `SyntaxTree.Alike`, `SyntaxTree.EntriesAlike`: trees that are laid out alike, and initializers

## Main results

* `SyntaxTree.Alike.access`, `SyntaxTree.Alike.update`, ...: like parts make like expressions
* `SyntaxTree.Alike.toArena`: what is laid out alike has the same skeleton and the same root
-/

namespace UpdateExpr

/-! ## Skeletons -/

/-- What a node is, without the characters of a literal and the place of a list. -/
def NodeShape.skeleton : NodeShape → NodeShape
  | .literal value _ flags => .literal value "" flags
  | .update receiver entries list => .update receiver entries { list with span := {} }
  | shape => shape

/-- A node without its place. -/
def Node.skeleton (n : Node) : Node :=
  ⟨n.shape.skeleton, {}, n.missing⟩

namespace Arena

/-- The nodes of an arena without their places. -/
def skeleton (a : Arena) : Arena :=
  ⟨a.nodes.map Node.skeleton⟩

@[simp] theorem size_skeleton (a : Arena) : a.skeleton.size = a.size := by
  simp [skeleton, size]

@[simp] theorem skeleton_push (a : Arena) (n : Node) :
    (a.push n).skeleton = a.skeleton.push n.skeleton := by
  simp [skeleton, push]

theorem size_eq_of_skeleton {a a' : Arena} (h : a.skeleton = a'.skeleton) : a.size = a'.size := by
  rw [← size_skeleton, h, size_skeleton]

end Arena

/-- Two names that differ in their places at most. -/
structure Identifier.Alike (id id' : Identifier) : Prop where
  name : id.name = id'.name
  missing : id.missing = id'.missing

theorem Identifier.Alike.skeleton_node {id id' : Identifier} (h : id.Alike id') :
    id.node.skeleton = id'.node.skeleton := by
  simp [Identifier.node, Node.skeleton, NodeShape.skeleton, h.name, h.missing]

theorem Identifier.Alike.hole (position position' : Nat) : (hole position).Alike (hole position') :=
  ⟨rfl, rfl⟩

/-! ## Trees that are laid out alike -/

/-- Two ways to add to an arena that give the same, but for places. -/
def Arena.AddAlike {α : Type} (add add' : Arena → α × Arena) : Prop :=
  ∀ a a' : Arena, a.skeleton = a'.skeleton →
    (add a).1 = (add' a').1 ∧ (add a).2.skeleton = (add' a').2.skeleton

namespace Arena.AddAlike

variable {α β : Type} {add add' : Arena → α × Arena}

/-- A node may be added whose skeleton is the same. -/
theorem node {n n' : Node} (h : n.skeleton = n'.skeleton) :
    AddAlike (Arena.add n) (Arena.add n') := by
  intro a a' ha
  refine ⟨size_eq_of_skeleton ha, ?_⟩
  rw [Arena.add, Arena.add, skeleton_push, skeleton_push, ha, h]

end Arena.AddAlike

namespace SyntaxTree

/-- Two trees are laid out alike. -/
def Alike (t t' : SyntaxTree) : Prop :=
  Arena.AddAlike t.layOut t'.layOut

/-- Two lists of initializers are laid out alike. -/
def EntriesAlike (entries entries' : List (Initializer SyntaxTree)) : Prop :=
  Arena.AddAlike (layOutEntries entries) (layOutEntries entries')

/-- Two initializers are alike: both have a name, or none has, and their values are alike. -/
structure InitializerAlike (entry entry' : Initializer SyntaxTree) : Prop where
  name : Option.Rel Identifier.Alike entry.name entry'.name
  value : entry.value.Alike entry'.value

variable {t t' : SyntaxTree} {id id' : Identifier} {span span' : Span}

namespace Alike

theorem identifier (h : id.Alike id') : Alike (.identifier id) (.identifier id') :=
  Arena.AddAlike.node h.skeleton_node

theorem hole (position position' : Nat) : Alike (hole position) (hole position') :=
  identifier (.hole position position')

theorem literal {value : LiteralValue} {flags : TokenFlags} {text text' : String} :
    Alike (.literal value text flags span) (.literal value text' flags span') :=
  Arena.AddAlike.node rfl

theorem keyword {kind : TokenKind} : Alike (.keyword kind span) (.keyword kind span') :=
  Arena.AddAlike.node rfl

theorem call (h : t.Alike t') : Alike (.call t span) (.call t' span') := by
  intro a a' ha
  obtain ⟨hn, hs⟩ := h a a' ha
  refine Arena.AddAlike.node ?_ _ _ hs
  rw [hn]
  rfl

theorem paren (h : t.Alike t') : Alike (.paren t span) (.paren t' span') := by
  intro a a' ha
  obtain ⟨hn, hs⟩ := h a a' ha
  refine Arena.AddAlike.node ?_ _ _ hs
  rw [hn]
  rfl

theorem access (h : t.Alike t') (hid : id.Alike id') :
    Alike (.access t id span) (.access t' id' span') := by
  intro a a' ha
  obtain ⟨hn, hs⟩ := h a a' ha
  refine Arena.AddAlike.node ?_ _ _ (Arena.AddAlike.node hid.skeleton_node _ _ hs).2
  rw [hn, Arena.size_eq_of_skeleton hs]
  rfl

theorem update {entries entries' : List (Initializer SyntaxTree)} {list list' : ListSpan}
    (h : t.Alike t') (he : EntriesAlike entries entries')
    (hcomma : list.trailingComma = list'.trailingComma) :
    Alike (.update t entries list span) (.update t' entries' list' span') := by
  intro a a' ha
  obtain ⟨hn, hs⟩ := h a a' ha
  obtain ⟨hes, hs⟩ := he _ _ hs
  refine Arena.AddAlike.node ?_ _ _ hs
  rw [hn, hes]
  simp [Node.skeleton, NodeShape.skeleton, hcomma]

/-- **What is laid out alike has the same skeleton and the same root.** -/
theorem toArena (h : t.Alike t') :
    t.toArena.1 = t'.toArena.1 ∧ t.toArena.2.skeleton = t'.toArena.2.skeleton :=
  h {} {} rfl

end Alike

theorem addName_alike {name name' : Option Identifier}
    (h : Option.Rel Identifier.Alike name name') :
    Arena.AddAlike (Arena.addName name) (Arena.addName name') := by
  intro a a' ha
  cases h with
  | none => exact ⟨rfl, ha⟩
  | some hid =>
    refine ⟨congrArg some (Arena.size_eq_of_skeleton ha), ?_⟩
    rw [Arena.addName, Arena.addName, Arena.skeleton_push, Arena.skeleton_push, ha,
      hid.skeleton_node]

theorem EntriesAlike.nil : EntriesAlike [] [] :=
  fun _ _ ha => ⟨rfl, ha⟩

theorem EntriesAlike.cons {entry entry' : Initializer SyntaxTree}
    {entries entries' : List (Initializer SyntaxTree)} (h : InitializerAlike entry entry')
    (hs : EntriesAlike entries entries') :
    EntriesAlike (entry :: entries) (entry' :: entries') := by
  intro a a' ha
  obtain ⟨hn, hs'⟩ := addName_alike h.name a a' ha
  obtain ⟨hv, hs'⟩ := h.value _ _ hs'
  have hnode : Node.skeleton ⟨.initializer (a.addName entry.name).1
        (some (entry.value.layOut (a.addName entry.name).2).1), entry.span, false⟩ =
      Node.skeleton ⟨.initializer (a'.addName entry'.name).1
        (some (entry'.value.layOut (a'.addName entry'.name).2).1), entry'.span, false⟩ := by
    rw [hn, hv]
    rfl
  obtain ⟨he, hs'⟩ := Arena.AddAlike.node hnode _ _ hs'
  obtain ⟨hes, hs'⟩ := hs _ _ hs'
  have hrefs := congr (congrArg (fun e es => some e :: es) he) hes
  exact ⟨hrefs, hs'⟩

end SyntaxTree

end UpdateExpr
