/-!
# Binary64 numbers

A floating point number is kept as its 64 bits. A fraction of natural numbers is rounded to the
nearest number, and to the one with the even last bit when two are equally near; what is too large
becomes infinity.

## Main definitions

* `Binary64.ofRatio n d`: the number nearest to `n / d`
* `Binary64.ofDecimal n places`: the number nearest to `n` with a decimal point before its last
  `places` digits
* `Binary64.isSame`: equality of numbers, in which the zeros agree and nothing equals a NaN

## Main results

* `roundDiv_bounds`: a quotient is rounded by at most one half
-/

namespace UpdateExpr

/-- The natural number nearest to `n / d`; the even one of two that are equally near. -/
def roundDiv (n d : Nat) : Nat :=
  if 2 * (n % d) < d then n / d
  else if d < 2 * (n % d) then n / d + 1
  else n / d + n / d % 2

/-- **A quotient is rounded by at most one half.** -/
theorem roundDiv_bounds {d : Nat} (h : 0 < d) (n : Nat) :
    2 * n ≤ 2 * d * roundDiv n d + d ∧ 2 * d * roundDiv n d ≤ 2 * n + d := by
  have hn := Nat.div_add_mod n d
  have hm := Nat.mod_lt n h
  have e : 2 * d * (n / d) = 2 * (d * (n / d)) := Nat.mul_assoc ..
  have e' : 2 * d * (n / d + 1) = 2 * (d * (n / d)) + 2 * d := by rw [Nat.mul_add, e, Nat.mul_one]
  unfold roundDiv
  split
  · omega
  · split
    · omega
    · rcases Nat.mod_two_eq_zero_or_one (n / d) with h2 | h2 <;> rw [h2]
      · rw [Nat.add_zero]; omega
      · omega

/-- A floating point number of 64 bits: a sign, 11 bits of exponent and 52 bits of fraction. -/
structure Binary64 where
  bits : UInt64
  deriving DecidableEq, Repr, Inhabited

namespace Binary64

/-- The bits of infinity. -/
def infinityBits : Nat :=
  0x7ff0000000000000

/-- The bits without the sign. -/
def magnitude (x : Binary64) : Nat :=
  x.bits.toNat % Nat.pow 2 63

/-- Whether the bits stand for no number. -/
def isNaN (x : Binary64) : Bool :=
  infinityBits < x.magnitude

/-- Whether two numbers are equal. Positive and negative zero are; a NaN equals nothing. -/
def isSame (x y : Binary64) : Bool :=
  !x.isNaN && !y.isNaN && (x == y || (x.magnitude == 0 && y.magnitude == 0))

/-- The bits of the nonnegative number nearest to `n / d`. The fraction is measured in units of the
least positive number, of which `2 ^ 1074` make one; the spacing of the numbers around it is
`2 ^ s` units, and counting those gives the bits. -/
def ratioBits (n d : Nat) : Nat :=
  let units := n * Nat.pow 2 1074
  let s := Nat.log2 (units / d) - 52
  min infinityBits (s * Nat.pow 2 52 + roundDiv units (d * Nat.pow 2 s))

/-- The number nearest to `n / d`. -/
def ofRatio (n d : Nat) : Binary64 :=
  ⟨.ofNat (ratioBits n d)⟩

/-- The number nearest to a decimal with the digits of `n`, the last `places` of them behind the
point. -/
def ofDecimal (n places : Nat) : Binary64 :=
  ofRatio n (Nat.pow 10 places)

end Binary64

end UpdateExpr
