import UpdateExpr.Syntax.Parser
import UpdateExpr.Token.Scanner

/-!
# Building nodes

A parser that builds nodes while it reads keeps a scanner, the nodes that it has built, and the
depth that it has come to. It goes back by a mark where it has looked ahead, repeats a loop while
the next token asks for it, and calls itself for nested expressions. Here reading is written in this
way. Its loops and calls are followed for a number of times only, and it has no result if that is
not enough.

## Main definitions

* `Builder`, `BuildM`: a parser that builds nodes, and a rule of it that may have no result
* `BuildM.expression`, `build`: an expression and a text
* `Built`, `Parsed.built`: what is built, and the tree that a text writes as nodes
-/

namespace UpdateExpr

/-- What building nodes has come to. -/
structure Builder where
  scanner : Scanner
  arena : Arena := {}
  names : NameTable := .empty
  problems : List Problem := []
  /-- Where the last token that was read ends. -/
  lastEnd : Nat := 0
  /-- The number of expressions that are being read, one within another. -/
  depth : Nat := 0
  /-- The nesting went too deep, and problems are reported no more. -/
  cut : Bool := false
  deriving DecidableEq, Repr, Inhabited

namespace Builder

/-- A builder before the first token of a text. -/
def ofText (text : List Char) : Builder where
  scanner := (Scanner.ofText text).scan

/-- The builder with the current token read. -/
def next (b : Builder) : Builder :=
  { b with scanner := b.scanner.scan, lastEnd := b.scanner.current.span.stop }

/-- The builder back at a mark. -/
def rewind (b : Builder) (m : Mark) (lastEnd : Nat) : Builder :=
  { b with scanner := b.scanner.rewind m, lastEnd }

/-- The builder with a problem reported. -/
def report (b : Builder) (issue : Issue) (span : Span) (args : List String) : Builder :=
  if b.cut then b else { b with problems := b.problems ++ [⟨issue, span, args⟩] }

theorem arena_report (b : Builder) (issue : Issue) (span : Span) (args : List String) :
    (b.report issue span args).arena = b.arena := by
  unfold report
  split <;> rfl

/-- The builder with a name met. -/
def meet (b : Builder) (name : String) : Builder :=
  { b with names := b.names.insert name }

/-- The builder with one more node. -/
def push (b : Builder) (n : Node) : Builder :=
  { b with arena := b.arena.push n }

end Builder

/-- A rule that builds nodes; it has no result if it was not followed to its end. -/
abbrev BuildM := StateT Builder Option

namespace BuildM

/-! ## Tokens and nodes -/

/-- The token that is to be read next. -/
def token : BuildM Token :=
  return (← get).scanner.current

/-- Reads the current token. -/
def next : BuildM Unit :=
  modify Builder.next

/-- Reports a problem at a span. -/
def report (issue : Issue) (span : Span) (args : List String) : BuildM Unit :=
  modify (·.report issue span args)

/-- The span from a position to the last token that was read. -/
def spanFrom (start : Nat) : BuildM Span :=
  return ⟨start, (← get).lastEnd⟩

/-- Builds a node, and gives its number. -/
def add (n : Node) : BuildM Nat := do
  let number := (← get).arena.size
  modify (·.push n)
  return number

/-- Builds a node from a position to the last token that was read. -/
def addFrom (start : Nat) (shape : NodeShape) : BuildM Nat := do
  add ⟨shape, ← spanFrom start, false⟩

/-- Reads a fixed token, or reports that it is missing, and says whether it was there. -/
def expect (kind : TokenKind) : BuildM Bool := do
  let t ← token
  if t.kind = kind then
    next
    return true
  else
    report .tokenExpected t.span [kind.text]
    return false

/-! ## Rules -/

/-- Builds a name; one that is missing stands behind the last token. -/
def name : BuildM Nat := do
  let t ← token
  if t.kind = .identifier then
    modify (·.meet t.value)
    next
    add ⟨.identifier t.value, t.span, false⟩
  else
    report .identifierExpected t.span []
    add (.hole (← get).lastEnd)

/-- Builds a number, and reports one that is too large. -/
def number (t : Token) : BuildM Nat := do
  let value := LiteralValue.ofNumber t.value.toList t.flags
  if value = .invalid then
    report .numberOutOfRange t.span [t.lexeme]
  next
  add ⟨.literal value t.value t.flags, t.span, false⟩

/-- Builds a literal, a name, or an expression in parentheses. -/
def primary (nested : BuildM Nat) : BuildM Nat := do
  let t ← token
  match t.kind with
  | .number => number t
  | .string =>
    next
    add ⟨.literal (.text t.value) t.lexeme t.flags, t.span, false⟩
  | .trueKeyword | .falseKeyword | .nullKeyword =>
    next
    add ⟨.token t.kind, t.span, false⟩
  | .identifier => name
  | .openParen =>
    next
    let inner ← nested
    let _ ← expect .closeParen
    addFrom t.span.start (.paren (some inner))
  | .unknown =>
    next
    add (.hole t.span.start)
  | _ =>
    report .expressionExpected t.span []
    add (.hole t.span.start)

/-- Builds a call of a member, if one is there. -/
def call (start target : Nat) : BuildM Nat := do
  if (← token).kind = .openParen then
    next
    let _ ← expect .closeParen
    addFrom start (.call (some target))
  else
    return target

/-- Builds the members and calls behind an expression that starts at a position. -/
def members (start : Nat) : Nat → Nat → BuildM Nat
  | 0, _ => fun _ => none
  | turns + 1, target => do
    if (← token).kind = .dot then
      next
      let member ← name
      let access ← addFrom start (.access (some target) (some member))
      members start turns (← call start access)
    else
      return target

/-- Builds an initializer without a name. -/
def bareInitializer (nested : BuildM Nat) (start : Nat) : BuildM Nat := do
  let value ← nested
  addFrom start (.initializer none (some value))

/-- Reads the equals sign and builds the value of an initializer that has a name. -/
def namedInitializer (nested : BuildM Nat) (start name : Nat) : BuildM Nat := do
  next
  let value ← nested
  addFrom start (.initializer (some name) (some value))

/-- Builds an initializer. A name is a target only in front of an equals sign; if none follows, the
builder goes back to the name. -/
def initializer (nested : BuildM Nat) : BuildM Nat := do
  let t ← token
  match t.kind with
  | .identifier =>
    modify (·.meet t.value)
    let b ← get
    next
    if (← token).kind = .equals then
      let name ← add ⟨.identifier t.value, t.span, false⟩
      namedInitializer nested t.span.start name
    else
      modify (·.rewind b.scanner.mark b.lastEnd)
      bareInitializer nested t.span.start
  | .equals =>
    report .identifierExpected t.span []
    let name ← add (.hole t.span.start)
    namedInitializer nested t.span.start name
  | _ => bareInitializer nested t.span.start

/-- Builds initializers with the commas between them, up to a closing brace or the end of the text,
behind those that were built before. The mark says whether a comma stands before the brace. -/
def initializers (nested : BuildM Nat) : Nat → List NodeRef → Bool → BuildM (List NodeRef × Bool)
  | 0, _, _ => fun _ => none
  | turns + 1, nodes, trailing => do
    let t ← token
    if t.kind = .closeBrace ∨ t.kind = .endOfFile then
      return (nodes, trailing)
    let node ← initializer nested
    if (← token).kind = .comma then
      next
      let behind ← token
      initializers nested turns (nodes ++ [some node]) (behind.kind = .closeBrace)
    else
      return (nodes ++ [some node], trailing)

/-- Reads the keyword and the braces of an update, and builds it. -/
def update (nested : BuildM Nat) (turns receiver : Nat) : BuildM Nat := do
  let start := ((← get).arena.span (some receiver)).start
  next
  let t ← token
  if ← expect .openBrace then
    let first := (← get).lastEnd
    let (entries, trailing) ← initializers nested turns [] false
    let last := (← token).span.start
    let _ ← expect .closeBrace
    addFrom start (.update (some receiver) entries ⟨⟨first, last⟩, trailing⟩)
  else
    addFrom start (.update (some receiver) [] ⟨.point t.span.start, false⟩)

/-- Builds the updates behind an expression. -/
def updates (nested : BuildM Nat) (bound : Nat) : Nat → Nat → BuildM Nat
  | 0, _ => fun _ => none
  | turns + 1, receiver => do
    if (← token).kind = .withKeyword then
      updates nested bound turns (← update nested bound receiver)
    else
      return receiver

/-- Reads all tokens up to the end of the text. -/
def skipToEnd : Nat → BuildM Unit
  | 0 => fun _ => none
  | turns + 1 => do
    if (← token).kind ≠ .endOfFile then
      next
      skipToEnd turns

/-- The end of reading where the nesting goes too deep. -/
def tooDeep (turns : Nat) : BuildM Nat := do
  report .nestedTooDeeply (← token).span []
  modify fun b => { b with cut := true }
  skipToEnd turns
  add (.hole (← get).lastEnd)

/-- Builds an expression in which others may be nested. -/
def oneLevel (nested : BuildM Nat) (turns : Nat) : BuildM Nat := do
  let start := (← token).span.start
  let first ← primary nested
  let target ← members start turns first
  updates nested turns turns target

/-- Builds an expression, with a number of turns for each loop and a number of calls for nested
expressions. -/
def expression (turns : Nat) : Nat → BuildM Nat
  | 0 => fun _ => none
  | calls + 1 => do
    if maxParseDepth ≤ (← get).depth then
      tooDeep turns
    else
      modify fun b => { b with depth := b.depth + 1 }
      let whole ← oneLevel (expression turns calls) turns
      modify fun b => { b with depth := b.depth - 1 }
      return whole

/-- Builds an expression and reports what follows it. -/
def root (turns calls : Nat) : BuildM Nat := do
  let whole ← expression turns calls
  let t ← token
  if t.kind ≠ .endOfFile then
    report .trailingToken t.span [t.lexeme]
  return whole

end BuildM

/-- What is built from a text. -/
structure Built where
  arena : Arena
  /-- The number of the whole expression. -/
  root : Nat
  problems : List Problem
  names : NameTable
  deriving DecidableEq, Repr, Inhabited

/-- The builder's nodes and problems, those of tokens and of the expression in the order of their
starts. -/
def Builder.finish (b : Builder) (root : Nat) : Built where
  arena := b.arena
  root := root
  problems := (b.problems ++ b.scanner.problems).mergeSort Problem.startsBefore
  names := b.names

/-- The nodes of a text, built in a number of steps: no loop takes more turns, and no more calls are
open at a time. -/
def build (steps : Nat) (text : String) : Option Built :=
  (BuildM.root steps steps (.ofText text.toList)).map fun (root, b) => b.finish root

/-- What a text writes, with its tree laid out. -/
def Parsed.built (p : Parsed) : Built where
  arena := p.arena
  root := p.root
  problems := p.problems
  names := p.names

end UpdateExpr
