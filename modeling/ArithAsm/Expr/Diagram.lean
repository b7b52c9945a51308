import ArithAsm.Expr.Basic

/-!
# Diagrams

A tree in the graph language of Graphviz.  Nodes are numbered in pre-order, and the edge
to a node stands right before its declaration.  A diagram is written in steps and keeps
what it has when a step fails.
-/

namespace ArithAsm

/-- A diagram in the making: its lines, and the number of the next node. -/
structure Diagram where
  lines : Array String := #[]
  next : Nat := 0
deriving Inhabited

namespace Diagram

/-- A step that writes to a diagram and may fail for want of a label. -/
abbrev Writing := ExceptT TextFault (StateM Diagram)

def line (text : String) : Writing Unit :=
  modify fun d => { d with lines := d.lines.push text }

/-- Declares the root of a tree under the next number, which is used up even where the root
has no label. -/
def node (e : Expr) : Writing Nat := do
  let number := (← get).next
  modify fun d => { d with next := number + 1 }
  let some label := e.label? | throw e.textFault
  line s!"  {number} [label=\"{label}\"];"
  return number

/-- Adds the edge from a node to the one that is declared next. -/
def edge (parent : Nat) : Writing Unit := do
  line s!"  {parent} -> {(← get).next};"

/-- Adds a tree and gives the number of its root. -/
def write : Expr → Writing Nat
  | e@(.negation _ operand) => do
      let number ← node e
      edge number
      discard (write operand)
      return number
  | e@(.binary _ _ left right) => do
      let number ← node e
      edge number
      discard (write left)
      edge number
      discard (write right)
      return number
  | e => node e

def text (d : Diagram) : String :=
  "\n".intercalate d.lines.toList

/-- Writes a tree as a whole graph on a fresh diagram and gives its text. -/
def print (e : Expr) : Writing String := do
  set ({ lines := #["digraph G \x7b"] } : Diagram)
  discard (write e)
  line "\x7d"
  return (← get).text

end Diagram

/-- The diagram of a tree, or why a node has no label. -/
def Expr.diagram (e : Expr) : Except TextFault String :=
  ((Diagram.print e).run.run {}).1

end ArithAsm
