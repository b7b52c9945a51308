import ArithAsm.Decimal.Binary64

/-!
# Shortest decimal text

The fewest decimal digits that round back to a binary number, and among those the nearest to
it.  All comparisons are made between integers, after clearing denominators.
-/

namespace ArithAsm.Binary64

/-- The rounding interval of a positive number, all over one denominator: the lower end, the
number, the upper end, and the denominator.  The ends belong to it where the mantissa is even. -/
structure Interval where
  low : Nat
  value : Nat
  high : Nat
  den : Nat
  closed : Bool

/-- The rounding interval of `mantissa * 2 ^ exponent`.  Below a power of two the neighbours are
twice as dense. -/
def interval (mantissa : Nat) (exponent : Int) : Interval :=
  let below := if mantissa = leastNormal ∧ exponent > minExponent then 1 else 2
  let power := exponent - 2
  let factor := 1 <<< power.toNat
  { low := (4 * mantissa - below) * factor
    value := 4 * mantissa * factor
    high := (4 * mantissa + 2) * factor
    den := 1 <<< (-power).toNat
    closed := mantissa % 2 == 0 }

/-- Whether `n * num / den` lies in an interval. -/
def Interval.holds (i : Interval) (n num den : Nat) : Bool :=
  let x := n * num * i.den
  if i.closed then i.low * den ≤ x && x ≤ i.high * den
  else i.low * den < x && x < i.high * den

/-- The multiple of `num / den` that is nearest to the number among the two around it that lie
in its interval.  Of two at the same distance it is the even one. -/
def Interval.nearest? (i : Interval) (num den : Nat) : Option Nat :=
  let down := i.value * den / (i.den * num)
  let up := down + 1
  match i.holds down num den, i.holds up num den with
  | true, false => some down
  | false, true => some up
  | true, true =>
      let x := 2 * i.value * den
      let middle := (down + up) * num * i.den
      if x < middle || (x == middle && down % 2 == 0) then some down else some up
  | false, false => none

/-- The least power of ten above a positive number. -/
def Interval.magnitude (i : Interval) : Int :=
  let guess : Int :=
    ((Nat.toDigits 10 i.value).length : Int) - (Nat.toDigits 10 i.den).length
  if i.value * tenTo (-guess) < i.den * tenTo guess then guess else guess + 1

/-- The multiple of a power of ten that an interval allows with at most `tried + fuel` digits,
and the power, when none has fewer than `tried`. -/
def Interval.shortest (i : Interval) (magnitude : Int) : (fuel tried : Nat) → Nat × Int
  | 0, tried => (i.value / i.den, magnitude - tried)
  | fuel + 1, tried =>
      let power := magnitude - tried
      match i.nearest? (tenTo power) (tenTo (-power)) with
      | some n => (n, power)
      | none => i.shortest magnitude fuel (tried + 1)

/-- The digits of a positive number, without zeros at their end, and the place of the decimal
point counted from before the first digit.  Seventeen digits are always enough. -/
def digits (mantissa : Nat) (exponent : Int) : List Char × Int :=
  let i := interval mantissa exponent
  let (n, power) := i.shortest i.magnitude 17 1
  let written := Nat.toDigits 10 n
  ((written.reverse.dropWhile (· = '0')).reverse, written.length + power)

/-- The positions of the decimal point at which a number is written without an exponent. -/
def positional (point : Int) : Bool :=
  -4 < point && point ≤ 16

/-- Digits with a decimal point among them, at least one on either side. -/
def positionalText (ds : List Char) (point : Int) : List Char :=
  if point ≤ 0 then '0' :: '.' :: List.replicate (-point).toNat '0' ++ ds
  else
    let whole := ds.take point.toNat
    let padding := List.replicate (point.toNat - ds.length) '0'
    let fraction := ds.drop point.toNat
    whole ++ padding ++ '.' :: (if fraction.isEmpty then ['0'] else fraction)

/-- Digits with a point after the first one, if there are more, and an exponent of at least two
digits. -/
def exponentialText (ds : List Char) (point : Int) : List Char :=
  let exponent := point - 1
  let size := Nat.toDigits 10 exponent.natAbs
  ds.take 1 ++ (if ds.length > 1 then '.' :: ds.drop 1 else []) ++
    ['e', if exponent < 0 then '-' else '+'] ++ List.replicate (2 - size.length) '0' ++ size

def text : Binary64 → String
  | .notANumber => "nan"
  | .infinite negative => if negative then "-inf" else "inf"
  | .finite negative mantissa exponent =>
      let sign := if negative then "-" else ""
      if mantissa = 0 then sign ++ "0.0"
      else
        let (ds, point) := digits mantissa exponent
        let body := if positional point then positionalText ds point else exponentialText ds point
        sign ++ String.ofList body

end ArithAsm.Binary64
