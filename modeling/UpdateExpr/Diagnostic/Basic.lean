import UpdateExpr.Text.Span
import UpdateExpr.Diagnostic.Issue
import UpdateExpr.Diagnostic.Template

/-!
# Diagnostics

A problem is what a pass over one text found: an issue, where, and with which arguments. A
diagnostic is its readable form, with the name of the file and the message written out. Diagnostics
can be made from any number; one that belongs to no issue gets a message of its own.

## Main definitions

* `Problem`: an issue at a span of the text at hand
* `Diagnostic`, `Diagnostic.ofCode`: the readable form
* `Bag`: the diagnostics of one file, in the order of their report
-/

namespace UpdateExpr

/-- An issue at a span of a text, with the arguments of its message. -/
structure Problem where
  issue : Issue
  span : Span
  args : List String := []
  deriving DecidableEq, Repr, Inhabited

/-- A further place that explains a diagnostic. -/
structure Related where
  file : String
  start : Nat
  length : Nat
  message : String
  deriving DecidableEq, Repr, Inhabited

namespace Related

/-- A further place is a remark. -/
def severity : Related → Severity :=
  fun _ => .message

/-- A further place has no number of its own. -/
def code : Related → Nat :=
  fun _ => 0

end Related

/-- A message about a range of bytes of a file. -/
structure Diagnostic where
  file : String
  start : Nat
  length : Nat
  message : String
  severity : Severity := .error
  code : Nat
  related : List Related := []
  deriving DecidableEq, Repr, Inhabited

/-- How much a number matters; one of no known issue counts as an error. -/
def Severity.ofCode (code : Nat) : Severity :=
  ((Issue.ofCode? code).map Issue.severity).getD .error

namespace Diagnostic

/-- The template of a number; one of no known issue has a fixed message. -/
def templateOf (code : Nat) : String :=
  ((Issue.ofCode? code).map Issue.template).getD "Unexpected diagnostic code."

/-- The diagnostic with a given number at a span. -/
def ofCode (file : String) (span : Span) (code : Nat) (args : List String) : Diagnostic where
  file := file
  start := span.start
  length := span.length
  message := fillTemplate (templateOf code) args
  severity := .ofCode code
  code := code

/-- Whether a diagnostic is an error. -/
def isError (d : Diagnostic) : Bool :=
  d.severity == .error

@[simp] theorem code_ofCode (file : String) (span : Span) (code : Nat) (args : List String) :
    (ofCode file span code args).code = code := rfl

@[simp] theorem start_ofCode (file : String) (span : Span) (code : Nat) (args : List String) :
    (ofCode file span code args).start = span.start := rfl

/-- Every issue is reported as an error. -/
@[simp] theorem isError_ofCode (file : String) (span : Span) (i : Issue) (args : List String) :
    (ofCode file span i.code args).isError = true := by
  simp [isError, ofCode, Severity.ofCode, Issue.severity]

end Diagnostic

/-- The readable form of a problem in a file. -/
def Problem.diagnostic (file : String) (p : Problem) : Diagnostic :=
  .ofCode file p.span p.issue.code p.args

@[simp] theorem Problem.code_diagnostic (file : String) (p : Problem) :
    (p.diagnostic file).code = p.issue.code := rfl

/-- The diagnostics of one file, in the order of their report. -/
structure Bag where
  file : String
  entries : List Diagnostic := []
  deriving DecidableEq, Repr, Inhabited

namespace Bag

/-- The bag with one more diagnostic. -/
def push (b : Bag) (d : Diagnostic) : Bag :=
  { b with entries := b.entries ++ [d] }

/-- The bag with a diagnostic about its own file. -/
def add (b : Bag) (code : Nat) (span : Span) (args : List String) : Bag :=
  b.push (.ofCode b.file span code args)

/-- The bag with the diagnostics of another behind its own. -/
def extend (b other : Bag) : Bag :=
  { b with entries := b.entries ++ other.entries }

/-- Whether the bag holds an error. -/
def hasErrors (b : Bag) : Bool :=
  b.entries.any (·.isError)

/-- The numbers of the diagnostics, in order. -/
def codes (b : Bag) : List Nat :=
  b.entries.map (·.code)

@[simp] theorem entries_push (b : Bag) (d : Diagnostic) :
    (b.push d).entries = b.entries ++ [d] := rfl

@[simp] theorem entries_extend (b other : Bag) :
    (b.extend other).entries = b.entries ++ other.entries := rfl

end Bag

end UpdateExpr
