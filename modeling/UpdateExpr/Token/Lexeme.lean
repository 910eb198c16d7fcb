import UpdateExpr.Text.CharClass
import UpdateExpr.Token.Basic

/-!
# Lexemes

The token at the front of a text, for each way in which one can start. Every lexeme is the longest
one that starts there.

## Main definitions

* `Lexeme`: the characters taken from a text, what they mean, and the rest
* `Lexeme.ofIdentifier`, `Lexeme.ofNumber`, `Lexeme.ofString`: the lexemes of more than one
  character
* `Lexeme.first`: the lexeme at the front of a text

## Main results

* `Lexeme.taken_append_rest`: a lexeme and the rest make up the text
* `Lexeme.taken_eq_cons`: a lexeme takes at least the first character
-/

namespace UpdateExpr

/-- A token cut off the front of a text. -/
structure Lexeme where
  kind : TokenKind
  /-- The characters of the token. -/
  taken : List Char
  /-- What the token stands for. -/
  value : List Char := []
  flags : TokenFlags := {}
  /-- The text behind the token. -/
  rest : List Char
  deriving DecidableEq, Repr, Inhabited

namespace Lexeme

/-- An identifier or keyword with a given first character. -/
def ofIdentifier (c : Char) (cs : List Char) : Lexeme :=
  let word := c :: cs.takeWhile isIdentifierPart
  { kind := (TokenKind.ofKeyword? word).getD .identifier
    taken := word
    value := word
    rest := cs.dropWhile isIdentifierPart }

/-- What follows the whole digits of a number: a point with digits, the suffix of long integers, or
nothing. A point that no digit follows is no part of the number. -/
def numberTail (digits : List Char) : List Char → Lexeme
  | '.' :: d :: cs =>
    if d.isDigit then
      let fraction := '.' :: d :: cs.takeWhile Char.isDigit
      { kind := .number
        taken := digits ++ fraction
        value := digits ++ fraction
        flags := { floating := true }
        rest := cs.dropWhile Char.isDigit }
    else { kind := .number, taken := digits, value := digits, rest := '.' :: d :: cs }
  | c :: cs =>
    if c = 'L' ∨ c = 'l' then
      { kind := .number, taken := digits ++ [c], value := digits, flags := { long := true }
        rest := cs }
    else { kind := .number, taken := digits, value := digits, rest := c :: cs }
  | [] => { kind := .number, taken := digits, value := digits, rest := [] }

/-- A number that starts with a digit. -/
def ofNumber (c : Char) (cs : List Char) : Lexeme :=
  numberTail (c :: cs.takeWhile Char.isDigit) (cs.dropWhile Char.isDigit)

/-- A number that starts with its point. -/
def ofFraction (cs : List Char) : Lexeme :=
  let digits := '.' :: cs.takeWhile Char.isDigit
  { kind := .number
    taken := digits
    value := digits
    flags := { floating := true }
    rest := cs.dropWhile Char.isDigit }

/-- The character that an escape stands for. -/
def unescape : Char → Char
  | 'n' => '\n'
  | 't' => '\t'
  | c => c

/-- The contents of a string up to its closing quote, which is taken too. A newline that is not
escaped, or the end of the text, ends the string without one. -/
def stringTail : List Char → Lexeme
  | [] => { kind := .string, taken := [], flags := { unterminated := true }, rest := [] }
  | '"' :: cs => { kind := .string, taken := ['"'], rest := cs }
  | '\n' :: cs =>
    { kind := .string, taken := ['\n'], flags := { unterminated := true }, rest := cs }
  | ['\\'] => { kind := .string, taken := ['\\'], flags := { unterminated := true }, rest := [] }
  | '\\' :: c :: cs =>
    let tail := stringTail cs
    { tail with taken := '\\' :: c :: tail.taken, value := unescape c :: tail.value }
  | c :: cs =>
    let tail := stringTail cs
    { tail with taken := c :: tail.taken, value := c :: tail.value }

/-- A string behind its opening quote. -/
def ofString (cs : List Char) : Lexeme :=
  let tail := stringTail cs
  { tail with taken := '"' :: tail.taken }

/-- A lexeme of one character. -/
def single (kind : TokenKind) (c : Char) (cs : List Char) : Lexeme :=
  { kind := kind, taken := [c], rest := cs }

/-- Whether a text starts with a digit. -/
def startsWithDigit : List Char → Bool
  | [] => false
  | c :: _ => c.isDigit

/-- The lexeme that starts with a character that is no blank. -/
def first (c : Char) (cs : List Char) : Lexeme :=
  match c with
  | '{' => single .openBrace c cs
  | '}' => single .closeBrace c cs
  | '(' => single .openParen c cs
  | ')' => single .closeParen c cs
  | ',' => single .comma c cs
  | '=' => single .equals c cs
  | '.' => if startsWithDigit cs then ofFraction cs else single .dot c cs
  | '"' => ofString cs
  | c =>
    if c.isDigit then ofNumber c cs
    else if isIdentifierStart c then ofIdentifier c cs
    else single .unknown c cs

@[simp] theorem kind_stringTail (cs : List Char) : (stringTail cs).kind = .string := by
  fun_induction stringTail cs <;> simp_all +zetaDelta

@[simp] theorem kind_numberTail (digits cs : List Char) :
    (numberTail digits cs).kind = .number := by
  unfold numberTail
  split
  · split <;> rfl
  · split <;> rfl
  · rfl

theorem stringTail_taken_append_rest (cs : List Char) :
    (stringTail cs).taken ++ (stringTail cs).rest = cs := by
  fun_induction stringTail cs <;> simp_all +zetaDelta

theorem numberTail_taken_append_rest (digits cs : List Char) :
    (numberTail digits cs).taken ++ (numberTail digits cs).rest = digits ++ cs := by
  unfold numberTail
  split
  · split <;> simp [List.takeWhile_append_dropWhile]
  · split <;> simp
  · simp

/-- **A lexeme and the rest make up the text.** -/
theorem taken_append_rest (c : Char) (cs : List Char) :
    (first c cs).taken ++ (first c cs).rest = c :: cs := by
  unfold first
  split
  case h_7 => split <;> simp [ofFraction, single, List.takeWhile_append_dropWhile]
  case h_8 => simp [ofString, stringTail_taken_append_rest]
  case h_9 =>
    split
    · simp [ofNumber, numberTail_taken_append_rest, List.takeWhile_append_dropWhile]
    · split <;> simp [ofIdentifier, single, List.takeWhile_append_dropWhile]
  all_goals rfl

theorem numberTail_taken (digits cs : List Char) :
    ∃ more, (numberTail digits cs).taken = digits ++ more := by
  unfold numberTail
  split
  · split
    · exact ⟨_, rfl⟩
    · exact ⟨[], by simp⟩
  · split
    · exact ⟨_, rfl⟩
    · exact ⟨[], by simp⟩
  · exact ⟨[], by simp⟩

/-- **A lexeme takes its first character.** -/
theorem taken_eq_cons (c : Char) (cs : List Char) : ∃ more, (first c cs).taken = c :: more := by
  unfold first
  split
  case h_7 => split <;> exact ⟨_, rfl⟩
  case h_9 =>
    split
    · obtain ⟨more, h⟩ := numberTail_taken (_ :: List.takeWhile Char.isDigit cs)
        (List.dropWhile Char.isDigit cs)
      exact ⟨_, h⟩
    · split <;> exact ⟨_, rfl⟩
  all_goals exact ⟨_, rfl⟩

end Lexeme

end UpdateExpr
