import UpdateExpr.Diagnostic.Basic

/-!
# Tokens

A token is a kind, the span it covers, the value it stands for and a few flags. A token that is not
well formed still is a token: it carries the problem that it raises.

## Main definitions

* `TokenKind`, `TokenKind.ofKeyword?`, `TokenKind.text`: the kinds, and how they are written
* `TokenFlags`: what else is known of a literal
* `Token`, `Token.problem?`: a token, and what is wrong with it
-/

namespace UpdateExpr

/-- The kinds of tokens. -/
inductive TokenKind where
  | unknown
  | endOfFile
  | number
  | string
  | identifier
  | openBrace
  | closeBrace
  | openParen
  | closeParen
  | dot
  | comma
  | equals
  | withKeyword
  | trueKeyword
  | falseKeyword
  | nullKeyword
  deriving DecidableEq, Repr, Inhabited

namespace TokenKind

/-- The number of a kind: names and literals first, then marks from `10`, then keywords from
`30`. -/
def code : TokenKind → Nat
  | unknown => 0
  | endOfFile => 1
  | number => 2
  | string => 3
  | identifier => 4
  | openBrace => 10
  | closeBrace => 11
  | openParen => 12
  | closeParen => 13
  | dot => 14
  | comma => 15
  | equals => 16
  | withKeyword => 30
  | trueKeyword => 31
  | falseKeyword => 32
  | nullKeyword => 33

/-- The keyword that is spelled like this. -/
def ofKeyword? : List Char → Option TokenKind
  | ['w', 'i', 't', 'h'] => some withKeyword
  | ['t', 'r', 'u', 'e'] => some trueKeyword
  | ['f', 'a', 'l', 's', 'e'] => some falseKeyword
  | ['n', 'u', 'l', 'l'] => some nullKeyword
  | _ => none

/-- Whether a kind is a reserved word. -/
def isKeyword : TokenKind → Bool
  | withKeyword | trueKeyword | falseKeyword | nullKeyword => true
  | _ => false

/-- How a kind is written in a message: the token itself, or what it is called. -/
def text : TokenKind → String
  | unknown => "unknown"
  | endOfFile => "end of file"
  | number => "number"
  | string => "string"
  | identifier => "identifier"
  | openBrace => "\x7b"
  | closeBrace => "\x7d"
  | openParen => "("
  | closeParen => ")"
  | dot => "."
  | comma => ","
  | equals => "="
  | withKeyword => "with"
  | trueKeyword => "true"
  | falseKeyword => "false"
  | nullKeyword => "null"

theorem code_injective {a b : TokenKind} (h : a.code = b.code) : a = b := by
  revert h
  cases a <;> cases b <;> decide

end TokenKind

/-- What else is known of a literal. -/
structure TokenFlags where
  /-- A number with a decimal point. -/
  floating : Bool := false
  /-- A number that ends in the suffix for long integers. -/
  long : Bool := false
  /-- A string without its closing quote. -/
  unterminated : Bool := false
  deriving DecidableEq, Repr, Inhabited

/-- The flags as a sum of powers of two. -/
def TokenFlags.bits (f : TokenFlags) : Nat :=
  f.floating.toNat + 2 * f.long.toNat + 4 * f.unterminated.toNat

/-- A token of a text. -/
structure Token where
  kind : TokenKind
  span : Span
  /-- The name of an identifier, the contents of a string, the digits of a number. -/
  value : String := ""
  flags : TokenFlags := {}
  /-- The characters of the token as they stand in the text. -/
  lexeme : String := ""
  deriving DecidableEq, Repr, Inhabited

namespace Token

/-- The end of a text, which is a token of its own. -/
def endAt (position : Nat) : Token :=
  ⟨.endOfFile, .point position, "", {}, ""⟩

/-- The issue that a token raises by itself. -/
def issue? (t : Token) : Option Issue :=
  if t.kind = .unknown then some .invalidCharacter
  else if t.flags.unterminated then some .unterminatedString
  else none

/-- What is wrong with a token by itself, at its span. -/
def problem? (t : Token) : Option Problem :=
  t.issue?.map fun issue => ⟨issue, t.span, []⟩

@[simp] theorem problem?_endAt (position : Nat) : (endAt position).problem? = none := rfl

end Token

end UpdateExpr
