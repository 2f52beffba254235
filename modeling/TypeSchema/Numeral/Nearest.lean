namespace TypeSchema
namespace Numeral

/-!
# The nearest double to a quotient

A double is `m * 2 ^ q` with an integer `m` below `2 ^ 53` and an exponent `q`
of at least `-1074`.  The double nearest to a positive quotient is found in
exact integer arithmetic: the size of the quotient fixes `q`, and one rounded
division gives `m`.  A tie goes to the even neighbour.  The result is the bit
pattern, in which the successor of the largest finite double is infinity.
-/

/-- The integer nearest to `num / den`; a tie goes to the even neighbour. -/
def roundDiv (num den : Nat) : Nat :=
  let quotient := num / den
  let excess := 2 * (num % den)
  if den < excess ∨ (excess = den ∧ quotient % 2 = 1) then quotient + 1 else quotient

/-- The value `num / den * 2 ^ shift` as a numerator and a denominator. -/
def shifted (num den : Nat) (shift : Int) : Nat × Nat :=
  if 0 ≤ shift then (num <<< shift.toNat, den) else (num, den <<< (-shift).toNat)

/-- The largest `t` with `2 ^ t ≤ num / den`, for positive `num` and `den`. -/
def binaryMagnitude (num den : Nat) : Int :=
  let guess : Int := (num.log2 : Int) - (den.log2 : Int)
  let (scaled, unit) := shifted num den (-guess)
  if unit ≤ scaled then guess else guess - 1

/-- The exponent of the smallest positive double. -/
def leastExponent : Int := -1074

/-- The bit pattern of positive infinity. -/
def infinityBits : Nat := 2047 <<< 52

/-- The bit pattern of a double that is not a number. -/
def nanBits : Nat := infinityBits + (1 <<< 51)

/-- The bit that makes a double negative. -/
def signBit : Nat := 1 <<< 63

/-- The bit pattern of the double nearest to `num / den`, where `den` is
positive.  Exponent field and fraction add up: a fraction that rounds up to
the next power of two moves the exponent field on by one. -/
def nearestBits (num den : Nat) : Nat :=
  if num = 0 then 0
  else
    let exponent := max (binaryMagnitude num den - 52) leastExponent
    let (scaled, unit) := shifted num den (-exponent)
    let field := (exponent - leastExponent).toNat <<< 52
    min (field + roundDiv scaled unit) infinityBits

end Numeral
end TypeSchema
