import ArithAsm.Expr.Basic

/-!
# Values of expressions

The value that a tree stands for on a machine with signed words of 64 bits: arithmetic
wraps around and division drops the fraction.
-/

namespace ArithAsm

def wordCount : Nat := 18446744073709551616

/-- The signed word congruent to an integer: the representative of its class modulo
`2 ^ 64` that lies in `[-2 ^ 63, 2 ^ 63)`. -/
def wrap (n : Int) : Int :=
  n.bmod wordCount

/-- Why a tree has no value. -/
inductive ValueFault where
  /-- A divisor is zero. -/
  | divisionByZero
  /-- A node of this class stands for no number. -/
  | noMeaning (node : NodeClass)
deriving DecidableEq, Inhabited

def ValueFault.message : ValueFault → String
  | divisionByZero => "division by zero"
  | noMeaning node => s!"cannot evaluate {node.name}"

/-- A binary operation on words.  Without an operator it is a division. -/
def Op.apply (op : Option Op) (left right : Int) : Except ValueFault Int :=
  match op with
  | some .add => .ok (wrap (left + right))
  | some .sub => .ok (wrap (left - right))
  | some .mul => .ok (wrap (left * right))
  | some .div | none =>
      if right = 0 then .error .divisionByZero else .ok (wrap (left.tdiv right))

/-- The value of a tree.  Operands are evaluated from left to right, and the first fault
met that way is the answer. -/
def Expr.value : Expr → Except ValueFault Int
  | .literal _ (some n) => .ok (wrap n)
  | .negation _ operand => do
      let v ← operand.value
      return wrap (-v)
  | .binary _ op left right => do
      let l ← left.value
      let r ← right.value
      Op.apply op l r
  | e => .error (.noMeaning e.nodeClass)

end ArithAsm
