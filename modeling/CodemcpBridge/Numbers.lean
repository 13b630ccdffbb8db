import Mathlib.Data.Rat.Floor
import Mathlib.Data.Nat.Log

/-!
# Floats

The floats that a configuration may hold, as exact values, and the two things that are done with
them: a whole number is turned into one, and one is put into a message.
-/

namespace CodemcpBridge

/-- A Python `float`. -/
inductive PyFloat
  | finite (q : ℚ)
  | inf (negative : Bool)
  | nan
  deriving DecidableEq

namespace PyFloat

instance {n : ℕ} : OfNat PyFloat n := ⟨finite n⟩

/-- `x <= 0`, which is false of a NaN. -/
def nonpositive : PyFloat → Bool
  | finite q => q ≤ 0
  | inf negative => negative
  | nan => false

/-- Divide by a power of two, to the nearest and to even. -/
def shiftRound (n shift : ℕ) : ℕ :=
  let quotient := n / 2 ^ shift
  let rest := 2 * (n % 2 ^ shift)
  if rest > 2 ^ shift ∨ rest = 2 ^ shift ∧ quotient % 2 = 1 then quotient + 1 else quotient

/-- The double nearest to a natural number, if it is not too large for one. -/
def ofNat (n : ℕ) : Option ℕ :=
  let shift := Nat.log 2 n - 52
  let rounded := shiftRound n shift * 2 ^ shift
  if rounded < 2 ^ 1024 then some rounded else none

/-- `float(n)`, unless it is an `OverflowError`. -/
def ofInt (n : ℤ) : Option PyFloat :=
  (ofNat n.natAbs).map fun m => finite (if n < 0 then -(m : ℚ) else m)

/-! ## Formatting -/

/-- The exponent of the first decimal digit of a positive number. -/
def decimalExponent (q : ℚ) : ℤ :=
  if 1 ≤ q then Nat.log 10 ⌊q⌋₊ else -(Nat.clog 10 ⌈1 / q⌉₊ : ℤ)

/-- Round to the nearest whole number, and to even. -/
def roundEven (q : ℚ) : ℕ :=
  let low := ⌊q⌋₊
  let rest := q - low
  if rest > 1 / 2 ∨ rest = 1 / 2 ∧ low % 2 = 1 then low + 1 else low

/-- The first six digits of a positive number, and the exponent of the first of them. -/
def sixDigits (q : ℚ) : ℕ × ℤ :=
  let e := decimalExponent q
  let digits := roundEven (q * (10 : ℚ) ^ (5 - e))
  if digits = 1000000 then (100000, e + 1) else (digits, e)

def stripZeros (digits : List Char) : List Char :=
  (digits.reverse.dropWhile (· == '0')).reverse

/-- A decimal point and digits after it, without zeros at the end. -/
def fraction (digits : List Char) : String :=
  let digits := stripZeros digits
  if digits = [] then "" else "." ++ String.ofList digits

/-- `{q:g}` of a positive number. -/
def formatPositive (q : ℚ) : String :=
  let (digits, e) := sixDigits q
  let text := (toString digits).toList
  if 0 ≤ e ∧ e < 6 then
    String.ofList (text.take (e.toNat + 1)) ++ fraction (text.drop (e.toNat + 1))
  else if -4 ≤ e ∧ e < 0 then
    "0" ++ fraction (List.replicate ((-e).toNat - 1) '0' ++ text)
  else
    let exponent := toString e.natAbs
    String.ofList (text.take 1) ++ fraction (text.drop 1) ++ "e" ++ (if e < 0 then "-" else "+") ++
      (if exponent.length < 2 then "0" ++ exponent else exponent)

/-- `{x:g}`. -/
def formatG : PyFloat → String
  | finite q =>
    if q = 0 then "0" else if q < 0 then "-" ++ formatPositive (-q) else formatPositive q
  | inf negative => if negative then "-inf" else "inf"
  | nan => "nan"

end PyFloat

end CodemcpBridge
