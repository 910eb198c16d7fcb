import UpdateExpr.Number.Binary64
import UpdateExpr.Token.Basic

/-!
# The values of literals

A number with a point is a floating point number. One without is an integer of 32 bits if it fits,
and else, or with the suffix, an integer of 64 bits; one that fits neither has no value.

## Main definitions

* `digitsValue`: the number that decimal digits write
* `LiteralValue`, `LiteralValue.ofNumber`: the values, and the value of a number token

## Main results

* `LiteralValue.ofNumber_eq_invalid_iff`: only integers that do not fit 64 bits have no value
-/

namespace UpdateExpr

/-- The value of one decimal digit. -/
def digitValue (c : Char) : Nat :=
  c.toNat - '0'.toNat

/-- The number that decimal digits write. -/
def digitsValue (digits : List Char) : Nat :=
  digits.foldl (fun n c => 10 * n + digitValue c) 0

/-- The value of a literal. -/
inductive LiteralValue where
  /-- An integer of 32 bits. -/
  | int (n : Int)
  /-- An integer of 64 bits. -/
  | long (n : Int)
  | double (x : Binary64)
  | text (s : String)
  /-- An integer too large for any type. -/
  | invalid
  deriving DecidableEq, Repr, Inhabited

namespace LiteralValue

/-- The first number too large for 32 bits. -/
def intLimit : Nat :=
  Nat.pow 2 31

/-- The first number too large for 64 bits. -/
def longLimit : Nat :=
  Nat.pow 2 63

/-- The value of digits without a point. -/
def ofInteger (long : Bool) (n : Nat) : LiteralValue :=
  if !long && n < intLimit then .int n
  else if n < longLimit then .long n
  else .invalid

/-- The value of digits with a point. -/
def ofFloating (digits : List Char) : LiteralValue :=
  let whole := digits.takeWhile (· ≠ '.')
  let fraction := (digits.dropWhile (· ≠ '.')).drop 1
  .double (.ofDecimal (digitsValue (whole ++ fraction)) fraction.length)

/-- The value of a number token with the given characters, its suffix left out. -/
def ofNumber (digits : List Char) (flags : TokenFlags) : LiteralValue :=
  if flags.floating then ofFloating digits else ofInteger flags.long (digitsValue digits)

theorem ofInteger_eq_invalid_iff (long : Bool) (n : Nat) :
    ofInteger long n = .invalid ↔ longLimit ≤ n := by
  have hlimits : intLimit < longLimit := by decide
  unfold ofInteger
  split
  · next h =>
    have hn : n < intLimit := of_decide_eq_true (Bool.and_eq_true_iff.1 h).2
    simp only [reduceCtorEq, false_iff]
    omega
  · split <;> simp_all

/-- **Only integers that do not fit 64 bits have no value.** -/
theorem ofNumber_eq_invalid_iff (digits : List Char) (flags : TokenFlags) :
    ofNumber digits flags = .invalid ↔
      flags.floating = false ∧ longLimit ≤ digitsValue digits := by
  unfold ofNumber
  split
  · next h => simp [ofFloating, h]
  · next h => simp [ofInteger_eq_invalid_iff, h]

/-- Whether a value is written as a string. -/
def isText : LiteralValue → Bool
  | .text _ => true
  | _ => false

/-- The kind of token that a literal with this value is. -/
def kind (v : LiteralValue) : TokenKind :=
  if v.isText then .string else .number

end LiteralValue

end UpdateExpr
