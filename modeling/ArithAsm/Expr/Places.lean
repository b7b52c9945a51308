import ArithAsm.Expr.Basic

/-!
# Places in a tree

The places of nodes say where a tree was read, not what it means.  Trees that differ in places
only are alike.
-/

namespace ArithAsm.Expr

def mapPlace (f : Location → Location) : Expr → Expr
  | literal place value => literal (f place) value
  | negation place operand => negation (f place) (operand.mapPlace f)
  | binary place op left right => binary (f place) op (left.mapPlace f) (right.mapPlace f)
  | blank place => blank (f place)
  | missing => missing

/-- Equal but for the places of the nodes. -/
def Alike (e other : Expr) : Prop :=
  e.mapPlace (fun _ ↦ default) = other.mapPlace fun _ ↦ default

namespace Alike

instance : DecidableRel Alike :=
  fun e other ↦ inferInstanceAs (Decidable (e.mapPlace _ = other.mapPlace _))

theorem literal (place other : Location) (value : Option Int) :
    Alike (.literal place value) (.literal other value) := rfl

theorem negation {operand operand' : Expr} (h : Alike operand operand')
    (place other : Location) : Alike (.negation place operand) (.negation other operand') :=
  congrArg (Expr.negation default) h

theorem binary {left left' right right' : Expr} (hl : Alike left left')
    (hr : Alike right right') (place other : Location) (op : Option Op) :
    Alike (.binary place op left right) (.binary other op left' right') := by
  unfold Alike at hl hr ⊢
  rw [mapPlace, mapPlace, hl, hr]

end Alike

end ArithAsm.Expr
