import ArithAsm.Expr.Value

/-!
# Exact values

The value of a tree in the integers, without any bound on their size, and the trees for which
machine words are wide enough.
-/

namespace ArithAsm

/-- A binary operation on integers; there is no quotient by zero, and a fraction is dropped. -/
def Op.exact : Op → Int → Int → Option Int
  | add, l, r => some (l + r)
  | sub, l, r => some (l - r)
  | mul, l, r => some (l * r)
  | div, l, r => if r = 0 then none else some (l.tdiv r)

/-- The value of a tree in the integers, if it has no gaps and no divisor is zero. -/
def Expr.exactValue : Expr → Option Int
  | .literal _ value => value
  | .negation _ operand => do return -(← operand.exactValue)
  | .binary _ op left right => do (← op).exact (← left.exactValue) (← right.exactValue)
  | _ => none

/-- The integers that are signed words: from `-2 ^ 63` to `2 ^ 63 - 1`. -/
def IsWord (n : Int) : Prop :=
  -9223372036854775808 ≤ n ∧ n < 9223372036854775808

/-- Every sub-tree has an exact value, and each of these is a signed word. -/
def Expr.Exact (e : Expr) : Prop :=
  ∀ part ∈ e.nodes, ∃ n, part.exactValue = some n ∧ IsWord n

def Expr.DivisionFree (e : Expr) : Prop :=
  ∀ part ∈ e.nodes, ∀ place left right, part ≠ .binary place (some .div) left right

end ArithAsm
