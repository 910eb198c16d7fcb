import UpdateExpr.Syntax.Tree

/-!
# Whole trees

A tree is whole if nothing was put in for what a text lacks: every name is there, every literal has
a value, and only members are called.

## Main definitions

* `Identifier.IsWhole`, `SyntaxTree.IsWhole`: names and trees without such places
-/

namespace UpdateExpr

/-- A name that is there. -/
structure Identifier.IsWhole (id : Identifier) : Prop where
  name : id.name ≠ ""
  missing : id.missing = false

/-- The keywords that are values. -/
def TokenKind.isValue : TokenKind → Bool
  | trueKeyword | falseKeyword | nullKeyword => true
  | _ => false

/-- A tree without places that were put in for what a text lacks. -/
inductive SyntaxTree.IsWhole : SyntaxTree → Prop
  | identifier {id : Identifier} (h : id.IsWhole) : IsWhole (.identifier id)
  | literal {value : LiteralValue} {text : String} {flags : TokenFlags} {span : Span}
    (h : value ≠ .invalid) : IsWhole (.literal value text flags span)
  | keyword {kind : TokenKind} {span : Span} (h : kind.isValue = true) :
    IsWhole (.keyword kind span)
  | access {target : SyntaxTree} {member : Identifier} {span : Span} (ht : IsWhole target)
    (hm : member.IsWhole) : IsWhole (.access target member span)
  | call {target : SyntaxTree} {member : Identifier} {inner span : Span}
    (ht : IsWhole (.access target member inner)) :
    IsWhole (.call (.access target member inner) span)
  | paren {inner : SyntaxTree} {span : Span} (h : IsWhole inner) : IsWhole (.paren inner span)
  | update {receiver : SyntaxTree} {entries : List (Initializer SyntaxTree)} {list : ListSpan}
    {span : Span} (hr : IsWhole receiver)
    (hn : ∀ entry ∈ entries, ∀ id ∈ entry.name, id.IsWhole)
    (hv : ∀ entry ∈ entries, IsWhole entry.value) : IsWhole (.update receiver entries list span)

end UpdateExpr
