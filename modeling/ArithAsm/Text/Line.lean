/-!
# Lines of a text

Two readings of "line".  `lines` breaks at every Unicode line boundary and gives no
line for the empty text; `firstLine` stops at a line feed only.
-/

namespace ArithAsm.Text

/-- The characters that end a line.  A carriage return takes a following line feed with it. -/
def isLineEnd (c : Char) : Bool :=
  let n := c.toNat
  (10 ≤ n && n ≤ 13) || (0x1c ≤ n && n ≤ 0x1e) || n == 0x85 || n == 0x2028 || n == 0x2029

/-- The lines of a text without their ends.  A text that stops at a line end has no empty
line after it. -/
def splitLines : List Char → List (List Char)
  | [] => []
  | '\r' :: '\n' :: rest => [] :: splitLines rest
  | c :: rest =>
      if isLineEnd c then [] :: splitLines rest
      else
        match splitLines rest with
        | [] => [[c]]
        | line :: more => (c :: line) :: more

/-- The lines of a text, broken at every line end. -/
def lines (text : String) : List String :=
  (splitLines text.toList).map String.ofList

def firstLine (text : String) : String :=
  String.ofList (text.toList.takeWhile (· ≠ '\n'))

end ArithAsm.Text
