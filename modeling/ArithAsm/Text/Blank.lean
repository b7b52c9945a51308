/-!
# Blank characters

White space in the sense of Unicode, together with the four ASCII information
separators, and the removal of a blank end.
-/

namespace ArithAsm.Text

/-- White space of any kind, the information separators `0x1c` to `0x1f` included. -/
def isBlank (c : Char) : Bool :=
  let n := c.toNat
  (9 ≤ n && n ≤ 13) || (0x1c ≤ n && n ≤ 0x20) || n == 0x85 || n == 0xa0 || n == 0x1680 ||
    (0x2000 ≤ n && n ≤ 0x200a) || n == 0x2028 || n == 0x2029 || n == 0x202f || n == 0x205f ||
    n == 0x3000

/-- A text without the longest blank part at its end. -/
def dropBlankEnd (text : String) : String :=
  String.ofList (text.toList.reverse.dropWhile isBlank).reverse

end ArithAsm.Text
