/-!
# Binary floating point

Numbers of the 64-bit binary format, as exact dyadic rationals, and the rounding of a
quotient of integers to the nearest of them.
-/

namespace ArithAsm

/-- A number of the format.  A finite one is `± mantissa * 2 ^ exponent`, with the mantissa below
`2 ^ 53` and as large as the least exponent, `-1074`, allows. -/
inductive Binary64 where
  | notANumber
  | infinite (negative : Bool)
  | finite (negative : Bool) (mantissa : Nat) (exponent : Int)
deriving DecidableEq, Inhabited

namespace Binary64

def minExponent : Int := -1074

def maxExponent : Int := 971

/-- The least mantissa with 53 binary digits, `2 ^ 52`. -/
def leastNormal : Nat := 4503599627370496

/-- A power of ten, one where the exponent is negative. -/
def tenTo (exponent : Int) : Nat :=
  Nat.pow 10 exponent.toNat

/-- The quotient rounded to the nearest integer, a half going to the even neighbour. -/
def divRound (num den : Nat) : Nat :=
  let q := num / den
  let r := num % den
  if 2 * r > den || (2 * r == den && q % 2 == 1) then q + 1 else q

/-- The quotient of two positive numbers over `2 ^ exponent`, rounded to the nearest integer. -/
def scaled (num den : Nat) (exponent : Int) : Nat :=
  divRound (num <<< (-exponent).toNat) (den <<< exponent.toNat)

/-- The exponent at which a positive quotient has 53 binary digits, or the least one. -/
def exponentOf (num den : Nat) : Int :=
  let guess : Int := (num.log2 : Int) - den.log2 - 53
  let wide := (num <<< (-guess).toNat) / (den <<< guess.toNat)
  let exponent := if wide ≥ 2 * leastNormal then guess + 1 else guess
  if exponent < minExponent then minExponent else exponent

/-- The number nearest to a quotient, with the given sign.  Beyond the greatest finite number
that is an infinity. -/
def ofQuotient (negative : Bool) (num den : Nat) : Binary64 :=
  if num = 0 then .finite negative 0 minExponent
  else
    let exponent := exponentOf num den
    let mantissa := scaled num den exponent
    let (mantissa, exponent) :=
      if mantissa = 2 * leastNormal then (leastNormal, exponent + 1) else (mantissa, exponent)
    if exponent > maxExponent then .infinite negative else .finite negative mantissa exponent

/-- The number nearest to a decimal `digits * 10 ^ power`.  Powers that leave the format's range
whatever the digits are not computed. -/
def ofDecimal (negative : Bool) (digits : Nat) (power : Int) : Binary64 :=
  let magnitude := (Nat.toDigits 10 digits).length + power
  if digits = 0 then .finite negative 0 minExponent
  else if magnitude > 310 then .infinite negative
  else if magnitude < -330 then .finite negative 0 minExponent
  else ofQuotient negative (digits * tenTo power) (tenTo (-power))

end Binary64

end ArithAsm
