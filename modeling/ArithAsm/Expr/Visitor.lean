import ArithAsm.Expr.Basic
import ArithAsm.Failure

/-!
# Visitors

A visitor treats a node by the method named after the class of the node.  It looks the name up
among the methods of its own, then among those all visitors share; without a method, the
children are visited from left to right.
-/

namespace ArithAsm

/-- What a visitor does with a node.  The visits of the children, from left to right, are there
for the method to make or to leave. -/
abbrev Method (m : Type → Type) := Expr → List (m Unit) → m Unit

namespace Visitor

def methodPrefix : String := "visit_"

/-- The names of the methods that all visitors share. -/
def shared : List String := ["visit_Literal", "visit_UnaryMinus", "visit_BinaryOp"]

variable {m : Type → Type} [Monad m]

def generic : Method m :=
  fun _ below ↦ forM below id

def inherited (name : String) : Option (Method m) :=
  if name ∈ shared then some generic else none

/-- The method for a class of nodes, with those of the visitor's own given by their names. -/
def method (own : String → Option (Method m)) (c : NodeClass) : Method m :=
  let name := methodPrefix ++ c.name
  ((own name).or (inherited name)).getD generic

def visit (own : String → Option (Method m)) : Expr → m Unit
  | e@(.negation _ operand) => method own e.nodeClass e [visit own operand]
  | e@(.binary _ _ left right) => method own e.nodeClass e [visit own left, visit own right]
  | e => method own e.nodeClass e []

/-- Visits that keep a list of nodes and may fail. -/
abbrev Recording := ExceptT Failure (StateM (List Expr))

/-- Puts a node on record and leaves its children alone. -/
def record : Method Recording :=
  fun e _ ↦ modify (· ++ [e])

/-- The visitor that puts the nodes of some classes on record.  It has no other method of its
own. -/
def recorder (handled : List String) (name : String) : Option (Method Recording) :=
  if name ∈ handled.map (methodPrefix ++ ·) then some record else none

end Visitor

end ArithAsm
