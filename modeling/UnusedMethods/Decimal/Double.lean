/-!
# Doubles

Non-negative numbers with a 53-bit significand, as whole numbers times powers of two, and the
rounding of fractions to them: the nearest double, the one with the even significand at a tie.
-/

namespace UnusedMethods.Decimal

/-- A non-negative double: `significand * 2 ^ exponent`, or too large for one. -/
inductive Double where
  | finite (significand : Nat) (exponent : Int)
  | infinite
deriving DecidableEq, Repr

namespace Double

def minExponent : Int := -1074

def maxExponent : Int := 971

/-- One more than the greatest significand. -/
def limit : Nat := Nat.pow 2 53

/-- `num / den` divided by `2 ^ e`, as a fraction. -/
def scale (num den : Nat) (e : Int) : Nat × Nat :=
  if 0 ≤ e then (num, den * Nat.pow 2 e.toNat) else (num * Nat.pow 2 (-e).toNat, den)

/-- The nearest whole number to a fraction, the even one at a tie. -/
def roundFraction (num den : Nat) : Nat :=
  let q := num / den
  let r := num % den
  if 2 * r < den then q
  else if den < 2 * r then q + 1
  else if q % 2 == 0 then q else q + 1

/-- The double nearest to a fraction with a positive denominator. -/
def ofFraction (num den : Nat) : Double :=
  if num == 0 then .finite 0 0
  else
    -- The guess leaves a quotient of 53 or 54 bits, so it is right or one too small.
    let guess := (Nat.log2 num : Int) - Nat.log2 den - 53
    let (n, d) := scale num den guess
    let e := max minExponent (if limit ≤ n / d then guess + 1 else guess)
    let (n, d) := scale num den e
    let m := roundFraction n d
    -- Rounding up may have carried into one bit more.
    let (m, e) := if m == limit then (m / 2, e + 1) else (m, e)
    if maxExponent < e then .infinite else .finite m e

def ofNat (n : Nat) : Double :=
  ofFraction n 1

/-- The double nearest to `digits * 10 ^ exponent`. -/
def ofScientific (digits : Nat) (exponent : Int) : Double :=
  -- Far outside the range the power of ten need not be formed.
  if digits == 0 then .finite 0 0
  else if 400 < exponent then .infinite
  else if 0 ≤ exponent then ofFraction (digits * Nat.pow 10 exponent.toNat) 1
  else if exponent + Nat.log2 digits < -400 then .finite 0 0
  else ofFraction digits (Nat.pow 10 (-exponent).toNat)

/-- The fraction that a significand and an exponent stand for. -/
def toFraction (m : Nat) (e : Int) : Nat × Nat :=
  if 0 ≤ e then (m * Nat.pow 2 e.toNat, 1) else (m, Nat.pow 2 (-e).toNat)

def mul : Double → Double → Double
  | .finite m e, .finite n f =>
    let (a, b) := toFraction m e
    let (c, d) := toFraction n f
    ofFraction (a * c) (b * d)
  | _, _ => .infinite

/-- The double nearest to a quotient by a positive number. -/
def div : Double → Double → Double
  | .finite m e, .finite n f =>
    let (a, b) := toFraction m e
    let (c, d) := toFraction n f
    ofFraction (a * d) (b * c)
  | .infinite, _ => .infinite
  | .finite .., .infinite => .finite 0 0

/-- The greatest power of ten that is a double, as an exponent. -/
def maxTen : Nat := 308

/-- `digits * 10 ^ exponent`, rounded after the digits are read and again after each factor. The
fuel bounds the number of divisors. -/
def scaled : Nat → Double → Int → Double
  | 0, value, _ => value
  | fuel + 1, value, exponent =>
    if exponent.natAbs ≤ maxTen then
      let power := ofScientific 1 exponent.natAbs
      if 0 ≤ exponent then value.mul power else value.div power
    else if value = .finite 0 0 then value
    else if 0 ≤ exponent then .infinite
    else scaled fuel (value.div (ofScientific 1 maxTen)) (exponent + maxTen)

def wholePart (m : Nat) (e : Int) : Nat :=
  if 0 ≤ e then m * Nat.pow 2 e.toNat else m / Nat.pow 2 (-e).toNat

/-- Read the digits of a whole number in a base of a power of two, rounding after each digit. -/
def ofDigits (base : Nat) (digits : List Nat) : Double :=
  digits.foldl (fun value digit =>
    match value with
    | .infinite => .infinite
    | .finite m e => ofFraction (wholePart m e * base + digit) 1) (.finite 0 0)

end Double

end UnusedMethods.Decimal
