/-!
# Source locations

A place in a named source text, with lines and columns counted from one.
-/

namespace ArithAsm

/-- A place in a source.  A place made by hand may have any line and column. -/
structure Location where
  source : String := "<input>"
  line : Int
  column : Int
deriving DecidableEq, Inhabited

namespace Location

/-- Characters between the start of the line and the place. -/
def offset (place : Location) : Int :=
  place.column - 1

def text (place : Location) : String :=
  s!"{place.source}:{place.line}:{place.column}"

end Location

end ArithAsm
