import TypeSchema.Numeral.Nearest

namespace TypeSchema
namespace Numeral

/-!
# Numerals

The text of a number is read in three ways.  A signed numeral denotes an
integer and is accepted within 64 bits; an unsigned numeral denotes a size;
a decimal denotes a double, with an optional point and an optional power of
ten, or is one of the words for infinity and for no number at all.  Every
reading takes the whole text: blanks and separators are refused.
-/

/-- The number that a run of decimal digits denotes. -/
def natural (digits : List Char) : Nat :=
  digits.foldl (fun value digit => value * 10 + (digit.toNat - '0'.toNat)) 0

/-- A run of at least one decimal digit, read as a number. -/
def natural? (digits : List Char) : Option Nat :=
  if digits ≠ [] ∧ digits.all Char.isDigit then some (natural digits) else none

/-- Take a leading sign away and say whether it was a minus. -/
def unsign : List Char -> Bool × List Char
  | '-' :: rest => (true, rest)
  | '+' :: rest => (false, rest)
  | rest => (false, rest)

/-- Give a magnitude its sign. -/
def applySign (negative : Bool) (magnitude : Nat) : Int :=
  if negative then -(magnitude : Int) else magnitude

/-- The integer that an optionally signed run of digits denotes. -/
def denoted? (chars : List Char) : Option Int :=
  let (negative, digits) := unsign chars
  (natural? digits).map (applySign negative)

/-- Whether an integer has 64 bits. -/
def isInt64 (value : Int) : Bool :=
  -9223372036854775808 ≤ value ∧ value ≤ 9223372036854775807

/-- Read an integer of 64 bits. -/
def integer? (text : String) : Option Int :=
  (denoted? text.toList).filter isInt64

/-- Read a size of 64 bits.  A plus sign is allowed, a minus sign is not. -/
def size? (text : String) : Option Nat :=
  let digits :=
    match text.toList with
    | '+' :: rest => rest
    | chars => chars
  (natural? digits).filter (· < UInt64.size)

/-- The magnitude `digits * 10 ^ exponent`. -/
structure Decimal where
  digits : Nat
  exponent : Int
  deriving DecidableEq, Repr

/-- The unsigned meaning of a decimal numeral. -/
inductive Magnitude where
  | finite (decimal : Decimal)
  | infinite
  | notANumber
  deriving DecidableEq, Repr

/-- The power of ten behind the digits: nothing, or an exponent mark with an
optional sign and at least one digit. -/
def exponent? : List Char -> Option Int
  | [] => some 0
  | mark :: rest => if mark = 'e' ∨ mark = 'E' then denoted? rest else none

/-- Digits with an optional point among them, at least one digit in all, and
an optional power of ten. -/
def decimal? (chars : List Char) : Option Decimal :=
  let whole := chars.takeWhile Char.isDigit
  let (fraction, tail) :=
    match chars.dropWhile Char.isDigit with
    | '.' :: behind => (behind.takeWhile Char.isDigit, behind.dropWhile Char.isDigit)
    | behind => ([], behind)
  if whole ++ fraction = [] then none
  else
    (exponent? tail).map fun exponent =>
      { digits := natural (whole ++ fraction), exponent := exponent - fraction.length }

/-- Read an unsigned decimal numeral or one of the special words, whose letter
case does not matter. -/
def magnitude? (chars : List Char) : Option Magnitude :=
  let lowered := String.ofList (chars.map Char.toLower)
  if lowered = "inf" ∨ lowered = "infinity" then some .infinite
  else if lowered = "nan" then some .notANumber
  else (decimal? chars).map .finite

/-- The number of decimal digits of a positive number, and zero for zero. -/
def digitCount (value : Nat) : Nat :=
  if value = 0 then 0 else (Nat.toDigits 10 value).length

/-- The bit pattern of the double nearest to a decimal.  From `10 ^ 311` on
every magnitude is infinite and below `10 ^ -330` every magnitude is zero, so
large powers of ten are never computed. -/
def Decimal.bits (decimal : Decimal) : Nat :=
  let order : Int := digitCount decimal.digits + decimal.exponent
  if decimal.digits = 0 ∨ order < -330 then 0
  else if 311 < order then infinityBits
  else if 0 ≤ decimal.exponent then nearestBits (decimal.digits * Nat.pow 10 decimal.exponent.toNat) 1
  else nearestBits decimal.digits (Nat.pow 10 (-decimal.exponent).toNat)

def Magnitude.bits : Magnitude -> Nat
  | .finite decimal => decimal.bits
  | .infinite => infinityBits
  | .notANumber => nanBits

/-- Read the double nearest to a decimal numeral with an optional sign. -/
def float? (text : String) : Option Float :=
  let (negative, chars) := unsign text.toList
  (magnitude? chars).map fun magnitude =>
    Float.ofBits (UInt64.ofNat (magnitude.bits + if negative then signBit else 0))

end Numeral
end TypeSchema
