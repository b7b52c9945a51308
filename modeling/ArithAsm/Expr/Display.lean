import ArithAsm.Expr.Basic
import ArithAsm.Text.Quoted

/-!
# Full text of a tree

A one-line record of everything a tree holds, places included.
-/

namespace ArithAsm

def Location.display (place : Location) : String :=
  s!"SourceLocation(filename={Text.quoted place.source}, line={place.line}, column={place.column})"

/-- The record of an operator: its name and its quoted character. -/
def Op.display (op : Op) : String :=
  s!"<BinaryOperator.{op.name}: {Text.quoted op.char.toString}>"

namespace Expr

/-- The record of a tree, each node with its fields in order. -/
def display : Expr → String
  | literal place value =>
      s!"Literal(location={place.display}, value={(value.map toString).getD absentText})"
  | negation place operand =>
      s!"UnaryMinus(location={place.display}, operand=" ++ operand.display ++ ")"
  | binary place op left right =>
      s!"BinaryOp(location={place.display}, operator={(op.map Op.display).getD absentText}, left="
        ++ left.display ++ ", right=" ++ right.display ++ ")"
  | blank place => s!"Expression(location={place.display})"
  | missing => absentText

end Expr

end ArithAsm
