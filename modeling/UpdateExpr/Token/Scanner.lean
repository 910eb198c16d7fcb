import UpdateExpr.Token.Scan

/-!
# Scanning with marks

A scanner goes through the tokens of a text one by one and gathers their problems. A mark remembers
the current token; going back to a mark scans that token again and forgets the problems that were
found since the mark was made.

## Main definitions

* `Scanner.ofText`, `Scanner.scan`: a scanner before its first token, and one token further
* `Scanner.mark`, `Scanner.rewind`: a mark at the current token, and going back to a mark
* `Scanner.take`: the problems gathered so far, which the scanner then forgets
-/

namespace UpdateExpr

/-- A remembered token: where it starts, and how many problems were known. -/
structure Mark where
  start : Position
  problems : Nat
  deriving DecidableEq, Repr, Inhabited

/-- A place among the tokens of a text. -/
structure Scanner where
  /-- Where the current token starts. -/
  start : Position
  /-- Where the current token ends. -/
  behind : Position
  current : Token
  problems : List Problem := []
  deriving DecidableEq, Repr, Inhabited

namespace Scanner

/-- A scanner before its first token, which stands for an unknown token without characters. -/
def ofText (text : List Char) : Scanner where
  start := .start text
  behind := .start text
  current := { kind := .unknown, span := .point 0 }

/-- The scanner at the next token. -/
def scan (s : Scanner) : Scanner where
  start := s.behind.skipBlanks
  behind := (Token.next s.behind).2
  current := (Token.next s.behind).1
  problems := s.problems ++ (Token.next s.behind).1.problem?.toList

/-- A mark at the current token. -/
def mark (s : Scanner) : Mark :=
  ⟨s.start, s.problems.length⟩

/-- The scanner back at a marked token, with the problems known when the mark was made. -/
def rewind (s : Scanner) (m : Mark) : Scanner :=
  let again := scan { s with behind := m.start }
  { again with problems := again.problems.take m.problems }

/-- The problems gathered so far, and the scanner without them. -/
def take (s : Scanner) : List Problem × Scanner :=
  (s.problems, { s with problems := [] })

@[simp] theorem current_scan (s : Scanner) : s.scan.current = (Token.next s.behind).1 := rfl

@[simp] theorem behind_scan (s : Scanner) : s.scan.behind = (Token.next s.behind).2 := rfl

/-- Going back reads the token at the mark again. -/
@[simp] theorem current_rewind (s : Scanner) (m : Mark) :
    (s.rewind m).current = (Token.next m.start).1 := rfl

end Scanner

end UpdateExpr
