import ArithAsm.Expr.Basic

/-!
# Outlines

A tree as an indented list of labels, one node a line, two spaces a level.  An outline is
written in steps and keeps what it has when a step fails: the lines so far and the level
reached.
-/

namespace ArithAsm

/-- An outline in the making. -/
structure Outline where
  lines : Array String := #[]
  level : Nat := 0
deriving Inhabited

namespace Outline

/-- A step that writes to an outline and may fail for want of a label. -/
abbrev Writing := ExceptT TextFault (StateM Outline)

/-- Adds the label of a node at the current level. -/
def entry (e : Expr) : Writing Unit := do
  let some label := e.label? | throw e.textFault
  modify fun o =>
    { o with lines := o.lines.push (String.ofList (List.replicate (2 * o.level) ' ') ++ label) }

/-- Does a step one level down.  A failed step leaves the level where it was. -/
def nested (step : Writing Unit) : Writing Unit := do
  modify fun o => { o with level := o.level + 1 }
  step
  modify fun o => { o with level := o.level - 1 }

/-- Adds a tree: its root, then its children one level down. -/
def write : Expr → Writing Unit
  | e@(.negation _ operand) => do
      entry e
      nested (write operand)
  | e@(.binary _ _ left right) => do
      entry e
      nested do
        write left
        write right
  | e => entry e

def text (o : Outline) : String :=
  "\n".intercalate o.lines.toList

/-- Writes a tree on a fresh outline and gives its text. -/
def print (e : Expr) : Writing String := do
  set ({} : Outline)
  write e
  return (← get).text

end Outline

/-- The outline of a tree, or why a node has no label. -/
def Expr.outline (e : Expr) : Except TextFault String :=
  ((Outline.print e).run.run {}).1

end ArithAsm
