import ArithAsm.Location

/-!
# Diagnostics

A message about a source text, with the place it concerns, the line around that place
and a suggestion, and the layout in which the four are shown.
-/

namespace ArithAsm

/-- A message about a source text.  Everything but the message may be missing. -/
structure Diagnostic where
  message : String
  place : Option Location := none
  hint : Option String := none
  sourceLine : Option String := none
deriving DecidableEq, Inhabited

namespace Diagnostic

/-- The first line, led by the place if there is one. -/
def headline (d : Diagnostic) : String :=
  match d.place with
  | some place => s!"{place.text}: error: {d.message}"
  | none => s!"error: {d.message}"

/-- The source line, indented by four, and a caret below the column.  Both are left out
where line or place is unknown, and the caret also where the column is not positive. -/
def context (d : Diagnostic) : List String :=
  match d.sourceLine, d.place with
  | some line, some place =>
      let caret := String.ofList (List.replicate (3 + place.column).toNat ' ' ++ ['^'])
      if place.column > 0 then ["    " ++ line, caret] else ["    " ++ line]
  | _, _ => []

/-- The suggestion, unless it is missing or empty. -/
def advice (d : Diagnostic) : List String :=
  match d.hint with
  | some hint => if hint.isEmpty then [] else ["hint: " ++ hint]
  | none => []

def render (d : Diagnostic) : String :=
  "\n".intercalate (d.headline :: d.context ++ d.advice)

end Diagnostic

end ArithAsm
