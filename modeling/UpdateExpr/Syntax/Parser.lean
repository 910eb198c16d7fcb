import UpdateExpr.Syntax.Tree
import UpdateExpr.Text.NameTable
import UpdateExpr.Token.Scan

/-!
# Reading expressions

Tokens are read as one expression: a literal, a name or parentheses, then any members and calls,
then any updates. Reading never fails. What does not fit is reported and a missing name takes its
place; once the expression is nested too deeply, the rest of the text is left out and nothing more
is reported.

Each rule is a function of the rule for nested expressions, and the nesting that is left is the
measure by which they recur.

## Main definitions

* `ParseState`: the tokens ahead, and what was gathered so far
* `ParseState.advance`, `ParseState.report`: one token further, and a problem
* `parsePrimary`, `parseMembers`, `parseUpdate`, `parseExpression`: the rules
* `Parsed`, `parse`: the expression that a text writes, with its problems and names
-/

namespace UpdateExpr

/-- How deeply expressions may be nested. -/
def maxParseDepth : Nat :=
  256

/-- What reading has come to. -/
structure ParseState where
  /-- The token that is to be read next. -/
  current : Token
  /-- The tokens after it, the end of the text being the last. -/
  later : List Token
  /-- Where the last token that was read ends. -/
  lastEnd : Nat := 0
  /-- The nesting went too deep, and problems are reported no more. -/
  cut : Bool := false
  /-- The names that were met. -/
  names : NameTable := .empty
  problems : List Problem := []
  deriving Inhabited

namespace ParseState

/-- The state before the first of some tokens. -/
def ofTokens : List Token → ParseState
  | [] => { current := .endAt 0, later := [] }
  | t :: ts => { current := t, later := ts }

/-- The state with the current token read. The end of the text stays. -/
def advance (s : ParseState) : ParseState :=
  match s.later with
  | [] => { s with lastEnd := s.current.span.stop }
  | t :: ts => { s with current := t, later := ts, lastEnd := s.current.span.stop }

/-- The state with every token but the end of the text read. -/
def skipToEnd (s : ParseState) : ParseState :=
  s.later.foldl (fun s _ => s.advance) s

/-- The state with a problem reported. -/
def report (s : ParseState) (issue : Issue) (span : Span) (args : List String) : ParseState :=
  if s.cut then s else { s with problems := s.problems ++ [⟨issue, span, args⟩] }

/-- The state with a name met. -/
def meet (s : ParseState) (name : String) : ParseState :=
  { s with names := s.names.insert name }

/-- Whether the token after the current one is of a given kind. -/
def nextIs (s : ParseState) (kind : TokenKind) : Bool :=
  (s.later.head?.map (·.kind)) == some kind

end ParseState

/-- A rule of the grammar: it reads some tokens and gives what they stand for. -/
abbrev ParseM := StateM ParseState

/-! ## Tokens -/

/-- The token that is to be read next. -/
def currentToken : ParseM Token :=
  return (← get).current

/-- Reads the current token. -/
def advance : ParseM Unit :=
  modify ParseState.advance

/-- Reports a problem at a span. -/
def reportAt (issue : Issue) (span : Span) (args : List String) : ParseM Unit :=
  modify (·.report issue span args)

/-- The span from a position to the last token that was read. -/
def spanFrom (start : Nat) : ParseM Span :=
  return ⟨start, (← get).lastEnd⟩

/-- Reads a fixed token, or reports that it is missing, and says whether it was there. -/
def expect (kind : TokenKind) : ParseM Bool := do
  let t ← currentToken
  if t.kind = kind then
    advance
    return true
  else
    reportAt .tokenExpected t.span [kind.text]
    return false

/-! ## Rules -/

/-- Reads a name; one that is missing stands behind the last token. -/
def parseName : ParseM Identifier := do
  let t ← currentToken
  if t.kind = .identifier then
    modify (·.meet t.value)
    advance
    return ⟨t.value, t.span, false⟩
  else
    reportAt .identifierExpected t.span []
    return .hole (← get).lastEnd

/-- Reads a number, and reports one that is too large. -/
def parseNumber (t : Token) : ParseM SyntaxTree := do
  let value := LiteralValue.ofNumber t.value.toList t.flags
  if value = .invalid then
    reportAt .numberOutOfRange t.span [t.lexeme]
  advance
  return .literal value t.value t.flags t.span

/-- Reads a literal, a name, or an expression in parentheses. A character that starts no token is
passed over, since it was reported as a token; any other token stays. -/
def parsePrimary (nested : ParseM SyntaxTree) : ParseM SyntaxTree := do
  let t ← currentToken
  match t.kind with
  | .number => parseNumber t
  | .string =>
    advance
    return .literal (.text t.value) t.lexeme t.flags t.span
  | .trueKeyword | .falseKeyword | .nullKeyword =>
    advance
    return .keyword t.kind t.span
  | .identifier => return .identifier (← parseName)
  | .openParen =>
    advance
    let inner ← nested
    let _ ← expect .closeParen
    return .paren inner (← spanFrom t.span.start)
  | .unknown =>
    advance
    return .hole t.span.start
  | _ =>
    reportAt .expressionExpected t.span []
    return .hole t.span.start

/-- Reads a call of a member, if one is there. -/
def parseCall (start : Nat) (target : SyntaxTree) : ParseM SyntaxTree := do
  if (← currentToken).kind = .openParen then
    advance
    let _ ← expect .closeParen
    return .call target (← spanFrom start)
  else
    return target

/-- Reads at most `n` members and calls behind an expression that starts at a position. -/
def parseMembers (start : Nat) : Nat → SyntaxTree → ParseM SyntaxTree
  | 0, target => return target
  | n + 1, target => do
    if (← currentToken).kind = .dot then
      advance
      let member ← parseName
      let access := SyntaxTree.access target member (← spanFrom start)
      parseMembers start n (← parseCall start access)
    else
      return target

/-- Reads an initializer without a name. -/
def parseBareInitializer (nested : ParseM SyntaxTree) (start : Nat) :
    ParseM (Initializer SyntaxTree) := do
  let value ← nested
  return ⟨none, value, ← spanFrom start⟩

/-- Reads the equals sign and the value of an initializer that has a name, if only a missing one. -/
def parseNamedInitializer (nested : ParseM SyntaxTree) (start : Nat) (name : Identifier) :
    ParseM (Initializer SyntaxTree) := do
  advance
  let value ← nested
  return ⟨some name, value, ← spanFrom start⟩

/-- Reads an initializer. A name is a target only in front of an equals sign. -/
def parseInitializer (nested : ParseM SyntaxTree) : ParseM (Initializer SyntaxTree) := do
  let t ← currentToken
  match t.kind with
  | .identifier =>
    modify (·.meet t.value)
    if (← get).nextIs .equals then
      advance
      parseNamedInitializer nested t.span.start ⟨t.value, t.span, false⟩
    else
      parseBareInitializer nested t.span.start
  | .equals =>
    reportAt .identifierExpected t.span []
    parseNamedInitializer nested t.span.start (.hole t.span.start)
  | _ => parseBareInitializer nested t.span.start

/-- Reads at most `n` initializers with the commas between them, up to a closing brace or the end of
the text, and says whether a comma stands before the brace. -/
def parseInitializers (nested : ParseM SyntaxTree) :
    Nat → ParseM (List (Initializer SyntaxTree) × Bool)
  | 0 => return ([], false)
  | n + 1 => do
    let t ← currentToken
    if t.kind = .closeBrace ∨ t.kind = .endOfFile then
      return ([], false)
    let entry ← parseInitializer nested
    if (← currentToken).kind = .comma then
      advance
      let behind ← currentToken
      let (entries, trailing) ← parseInitializers nested n
      return (entry :: entries, behind.kind = .closeBrace ∨ trailing)
    else
      return ([entry], false)

/-- Reads the keyword and the braces of an update, with at most `n` initializers. -/
def parseUpdate (nested : ParseM SyntaxTree) (n : Nat) (receiver : SyntaxTree) :
    ParseM SyntaxTree := do
  let start := receiver.span.start
  advance
  let t ← currentToken
  if ← expect .openBrace then
    let first := (← get).lastEnd
    let (entries, trailing) ← parseInitializers nested n
    let last := (← currentToken).span.start
    let _ ← expect .closeBrace
    return .update receiver entries ⟨⟨first, last⟩, trailing⟩ (← spanFrom start)
  else
    return .update receiver [] ⟨.point t.span.start, false⟩ (← spanFrom start)

/-- Reads at most `n` updates behind an expression, each with at most `bound` initializers. -/
def parseUpdates (nested : ParseM SyntaxTree) (bound : Nat) : Nat → SyntaxTree → ParseM SyntaxTree
  | 0, receiver => return receiver
  | n + 1, receiver => do
    if (← currentToken).kind = .withKeyword then
      parseUpdates nested bound n (← parseUpdate nested bound receiver)
    else
      return receiver

/-- The end of reading where the nesting goes too deep: one problem, and the rest is left out. -/
def parseCut : ParseM SyntaxTree := do
  reportAt .nestedTooDeeply (← currentToken).span []
  modify fun s => { s with cut := true }.skipToEnd
  return .hole (← get).lastEnd

/-- Reads an expression in which others may be nested to a given depth. No list or chain in it is
longer than `bound`. -/
def parseExpression (bound : Nat) : Nat → ParseM SyntaxTree
  | 0 => parseCut
  | depth + 1 => do
    let nested := parseExpression bound depth
    let start := (← currentToken).span.start
    let primary ← parsePrimary nested
    let target ← parseMembers start bound primary
    parseUpdates nested bound bound target

/-- Reads an expression and reports what follows it. -/
def parseRoot (bound : Nat) : ParseM SyntaxTree := do
  let tree ← parseExpression bound maxParseDepth
  let t ← currentToken
  if t.kind ≠ .endOfFile then
    reportAt .trailingToken t.span [t.lexeme]
  return tree

/-! ## Texts -/

/-- The expression that a text writes. -/
structure Parsed where
  tree : SyntaxTree
  /-- The problems of the tokens reached and of the expression, in the order of their starts. -/
  problems : List Problem
  /-- The names met, in the order of the text. -/
  names : NameTable

namespace Parsed

/-- The nodes of the expression. -/
def arena (p : Parsed) : Arena :=
  p.tree.toArena.2

/-- The number of the whole expression. -/
def root (p : Parsed) : Nat :=
  p.tree.toArena.1

/-- The problems in readable form. -/
def diagnostics (file : String) (p : Parsed) : List Diagnostic :=
  p.problems.map (·.diagnostic file)

end Parsed

/-- Whether a problem starts no later than another. -/
def Problem.startsBefore (p q : Problem) : Bool :=
  p.span.start ≤ q.span.start

/-- The expression that some tokens write. No rule repeats more often than there are tokens. -/
def parseTokens (tokens : List Token) : Parsed :=
  let (tree, s) := (parseRoot tokens.length).run (.ofTokens tokens)
  let reached := tokens.take (tokens.length - s.later.length)
  { tree := tree
    problems := (s.problems ++ reached.filterMap Token.problem?).mergeSort Problem.startsBefore
    names := s.names }

/-- The expression that a text writes. -/
def parse (text : String) : Parsed :=
  parseTokens (Token.ofText text.toList)

end UpdateExpr
