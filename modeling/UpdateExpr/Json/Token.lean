/-!
# Tokens of JSON

The text of a JSON value is split into brackets, separators and scalars. A string may hold halves
of surrogate pairs that stand alone; such a string is a token, but has no text.

## Main definitions

* `JsonValue`: a JSON value
* `JsonToken`: a token
* `TextUnit`, `textOfUnits?`: what a string is written with, and the text it stands for
* `JsonToken.listOf?`: the tokens of a text
-/

namespace UpdateExpr

/-- A JSON value. Fields stay in the order of the text, with repeats. -/
inductive JsonValue where
  | null
  | bool (value : Bool)
  /-- A number that is written with digits only. -/
  | natural (value : Nat)
  /-- A number that is written with a sign, a fraction or an exponent. -/
  | number
  /-- A string, and its text unless half of a surrogate pair stands alone in it. -/
  | text (value? : Option String)
  | array (items : List JsonValue)
  | object (fields : List (Option String × JsonValue))
  deriving Repr, Inhabited

/-- A token of JSON. -/
inductive JsonToken where
  | openBracket
  | closeBracket
  | openBrace
  | closeBrace
  | colon
  | comma
  /-- A value that has no parts. -/
  | scalar (value : JsonValue)
  deriving Repr, Inhabited

/-- What a string is written with: a character, or the number of a UTF-16 unit. -/
inductive TextUnit where
  | char (c : Char)
  | unit (n : Nat)
  deriving DecidableEq, Repr, Inhabited

/-- The text that some units stand for, unless half of a surrogate pair stands alone. -/
def textOfUnits? : List TextUnit → Option (List Char)
  | [] => some []
  | .char c :: rest => (textOfUnits? rest).map (c :: ·)
  | .unit n :: rest =>
    if n < 0xD800 || 0xE000 ≤ n then (textOfUnits? rest).map (.ofNat n :: ·)
    else
      match rest with
      | .unit m :: rest =>
        if n < 0xDC00 && 0xDC00 ≤ m && m < 0xE000 then
          (textOfUnits? rest).map
            (.ofNat (0x10000 + (n - 0xD800) * 0x400 + (m - 0xDC00)) :: ·)
        else none
      | _ => none

/-- The value of a hexadecimal digit. -/
def hexValue? (c : Char) : Option Nat :=
  if c.isDigit then some (c.toNat - '0'.toNat)
  else if 'a' ≤ c ∧ c ≤ 'f' then some (c.toNat - 'a'.toNat + 10)
  else if 'A' ≤ c ∧ c ≤ 'F' then some (c.toNat - 'A'.toNat + 10)
  else none

/-- The number that hexadecimal digits write. -/
def hexNumber? (digits : List Char) : Option Nat :=
  digits.foldlM (fun n c => (hexValue? c).map (16 * n + ·)) 0

/-- The character that a letter behind a backslash stands for. -/
def escaped? : Char → Option Char
  | '"' => some '"'
  | '\\' => some '\\'
  | '/' => some '/'
  | 'b' => some '\x08'
  | 'f' => some '\x0c'
  | 'n' => some '\n'
  | 'r' => some '\r'
  | 't' => some '\t'
  | _ => none

/-- The units of a string up to its closing quote, and what comes after it. Control characters do
not occur in strings. -/
def readUnits? : List Char → Option (List TextUnit × List Char)
  | [] => none
  | '"' :: rest => some ([], rest)
  | '\\' :: 'u' :: a :: b :: c :: d :: rest => do
    let n ← hexNumber? [a, b, c, d]
    let (units, behind) ← readUnits? rest
    return (.unit n :: units, behind)
  | '\\' :: e :: rest => do
    let c ← escaped? e
    let (units, behind) ← readUnits? rest
    return (.char c :: units, behind)
  | c :: rest =>
    if c < ' ' then none
    else do
      let (units, behind) ← readUnits? rest
      return (.char c :: units, behind)

/-- What comes after the fraction of a number, and whether there is one. -/
def afterFraction : List Char → Bool × List Char
  | '.' :: d :: rest =>
    if d.isDigit then (true, rest.dropWhile Char.isDigit) else (false, '.' :: d :: rest)
  | cs => (false, cs)

/-- What comes after the exponent of a number, and whether there is one. -/
def afterExponent : List Char → Bool × List Char
  | e :: sign :: rest =>
    let digits := if sign = '+' || sign = '-' then rest else sign :: rest
    if (e = 'e' || e = 'E') && (digits.head?.any Char.isDigit) then
      (true, digits.dropWhile Char.isDigit)
    else (false, e :: sign :: rest)
  | cs => (false, cs)

/-- The digits before the point of a number, and what comes after them. A zero stands alone. -/
def wholeDigits? : List Char → Option (List Char × List Char)
  | '0' :: rest => some (['0'], rest)
  | d :: rest =>
    if d.isDigit then some (d :: rest.takeWhile Char.isDigit, rest.dropWhile Char.isDigit) else none
  | [] => none

/-- A number, and what comes after it. -/
def readNumber? (cs : List Char) : Option (JsonValue × List Char) := do
  let unsigned := if cs.head? = some '-' then cs.tail else cs
  let (digits, behind) ← wholeDigits? unsigned
  let (hasFraction, behind) := afterFraction behind
  let (hasExponent, behind) := afterExponent behind
  if cs.head? = some '-' || hasFraction || hasExponent then return (.number, behind)
  else return (.natural (digits.foldl (fun n d => 10 * n + (d.toNat - '0'.toNat)) 0), behind)

namespace JsonToken

/-- Whether a character may stand between tokens. -/
def isSpace (c : Char) : Bool :=
  c = ' ' || c = '\n' || c = '\t' || c = '\r'

/-- The first token of a text that starts with one, and what comes after it. -/
def first? : List Char → Option (JsonToken × List Char)
  | '[' :: rest => some (.openBracket, rest)
  | ']' :: rest => some (.closeBracket, rest)
  | '{' :: rest => some (.openBrace, rest)
  | '}' :: rest => some (.closeBrace, rest)
  | ':' :: rest => some (.colon, rest)
  | ',' :: rest => some (.comma, rest)
  | 'n' :: 'u' :: 'l' :: 'l' :: rest => some (.scalar .null, rest)
  | 't' :: 'r' :: 'u' :: 'e' :: rest => some (.scalar (.bool true), rest)
  | 'f' :: 'a' :: 'l' :: 's' :: 'e' :: rest => some (.scalar (.bool false), rest)
  | '"' :: rest => do
    let (units, behind) ← readUnits? rest
    return (.scalar (.text ((textOfUnits? units).map String.ofList)), behind)
  | cs => do
    let (value, behind) ← readNumber? cs
    return (.scalar value, behind)

/-- The tokens of a text, if there are at most `n` of them and nothing else. -/
def listWithin? : Nat → List Char → Option (List JsonToken)
  | 0, _ => none
  | n + 1, cs =>
    match cs.dropWhile isSpace with
    | [] => some []
    | c :: rest => do
      let (token, behind) ← first? (c :: rest)
      let tokens ← listWithin? n behind
      return token :: tokens

/-- The tokens of a text, if there is nothing else in it. Every token takes a character. -/
def listOf? (text : List Char) : Option (List JsonToken) :=
  listWithin? (text.length + 1) text

end JsonToken

end UpdateExpr
