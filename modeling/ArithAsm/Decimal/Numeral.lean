import ArithAsm.Decimal.Binary64
import ArithAsm.Text.Blank
import ArithAsm.Text.Digit

/-!
# Reading numerals

A decimal numeral with an optional sign, fraction and exponent, or the name of an infinity or
of no number.  Digits may come from any script and may be parted by single underscores; white
space around the numeral is dropped.
-/

namespace ArithAsm.Numeral

/-- White space that may surround a numeral: any but the information separators. -/
def isPadding (c : Char) : Bool :=
  Text.isBlank c && !(0x1c ≤ c.toNat && c.toNat ≤ 0x1f)

def trim (text : List Char) : List Char :=
  ((text.dropWhile isPadding).reverse.dropWhile isPadding).reverse

def plainDigit (c : Char) : Char :=
  match Text.digitValue? c with
  | some value => Nat.digitChar value
  | none => c

/-- Takes out underscores.  Each must stand between two digits; the flag tells whether a digit
came right before. -/
def dropUnderscores : (afterDigit : Bool) → List Char → Option (List Char)
  | _, [] => some []
  | afterDigit, '_' :: c :: rest =>
      if afterDigit && c.isDigit then (dropUnderscores true rest).map (c :: ·) else none
  | _, c :: rest => if c = '_' then none else (dropUnderscores c.isDigit rest).map (c :: ·)

def natOf (ds : List Char) : Nat :=
  ds.foldl (fun n c => 10 * n + (c.toNat - '0'.toNat)) 0

/-- Takes a sign off the front; the flag tells whether it is a minus. -/
def sign : List Char → Bool × List Char
  | '-' :: rest => (true, rest)
  | '+' :: rest => (false, rest)
  | text => (false, text)

/-- The exponent at the end of a numeral: none at all, or a mark, a sign and digits. -/
def exponent? : List Char → Option Int
  | [] => some 0
  | c :: rest =>
      let (negative, ds) := sign rest
      if (c = 'e' || c = 'E') && !ds.isEmpty && ds.all Char.isDigit then
        some (if negative then -(natOf ds : Int) else natOf ds)
      else none

/-- The number of an unsigned numeral that starts with a digit or a point. -/
def decimal? (negative : Bool) (text : List Char) : Option Binary64 :=
  let whole := text.takeWhile Char.isDigit
  let (fraction, rest) := match text.dropWhile Char.isDigit with
    | '.' :: rest => (rest.takeWhile Char.isDigit, rest.dropWhile Char.isDigit)
    | rest => ([], rest)
  if whole.isEmpty && fraction.isEmpty then none
  else
    (exponent? rest).map fun power =>
      .ofDecimal negative (natOf (whole ++ fraction)) (power - fraction.length)

def read? (text : String) : Option Binary64 := do
  let plain := (trim text.toList).map plainDigit
  let (negative, body) := sign (← dropUnderscores false plain)
  let name := String.ofList (body.map Char.toLower)
  if name = "inf" || name = "infinity" then return .infinite negative
  if name = "nan" then return .notANumber
  decimal? negative body

end ArithAsm.Numeral
