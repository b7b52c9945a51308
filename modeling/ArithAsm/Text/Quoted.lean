import ArithAsm.Text.Printable

/-!
# Quoted text

The quoted form of a text: one printable line between quote marks from which the
text can be read back.  Marks, backslashes and unprintable characters are written
as escapes; everything else stands for itself.
-/

namespace ArithAsm.Text

/-- The lower-case hexadecimal digits of `n`, padded with zeros to `width`. -/
def hex (width n : Nat) : List Char :=
  let digits := Nat.toDigits 16 n
  List.replicate (width - digits.length) '0' ++ digits

/-- Double quotes only around a text that holds an apostrophe and no double quote. -/
def quoteMark (text : List Char) : Char :=
  if text.contains '\x27' && !text.contains '"' then '"' else '\x27'

/-- One character inside quotes of the given mark.  An unprintable character is written by
its code point, in the shortest of the three widths that holds it. -/
def escape (mark c : Char) : List Char :=
  if c = mark || c = '\\' then ['\\', c]
  else if c = '\n' then ['\\', 'n']
  else if c = '\r' then ['\\', 'r']
  else if c = '\t' then ['\\', 't']
  else if isPrintable c then [c]
  else if c.toNat < 0x100 then '\\' :: 'x' :: hex 2 c.toNat
  else if c.toNat < 0x10000 then '\\' :: 'u' :: hex 4 c.toNat
  else '\\' :: 'U' :: hex 8 c.toNat

def quoted (text : String) : String :=
  let cs := text.toList
  let mark := quoteMark cs
  String.ofList (mark :: cs.flatMap (escape mark) ++ [mark])

end ArithAsm.Text
