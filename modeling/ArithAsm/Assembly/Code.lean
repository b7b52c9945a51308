import ArithAsm.Assembly.OfExpr

/-!
# Code by composition

The code of a tree put together from that of its children, without drafting: what a draft of a
tree without gaps adds to the instructions before it.
-/

namespace ArithAsm

def literalCode (c : Constant) : List Instruction :=
  if pushRange.1 ≤ c.value ∧ c.value ≤ pushRange.2 then [.push (.immediate c)]
  else [.load c, .push (.register .rax)]

/-- The instructions that push a number.  There are none for one that cannot be written. -/
def numberCode (n : Int) : List Instruction :=
  ((Constant.of? n).map literalCode).getD []

@[simp] theorem numberCode_value (c : Constant) : numberCode c.value = literalCode c := by
  simp [numberCode]

theorem numberCode_of_short {n : Int} (h : IsShort n) : numberCode n = literalCode ⟨n, h⟩ :=
  numberCode_value ⟨n, h⟩

/-- The instructions that replace a value on the stack by its negation. -/
def negationCode : List Instruction :=
  [.pop (.register .rax), .neg, .push (.register .rax)]

/-- The instructions that replace two values on the stack by the result of an operation. -/
def operationCode (op : Op) : List Instruction :=
  [.pop (.register .rdi), .pop (.register .rax)] ++ op.instructions ++ [.push (.register .rax)]

/-- The instructions for a tree, in post-order.  Gaps have no code. -/
def Expr.code : Expr → List Instruction
  | .literal _ (some n) => numberCode n
  | .negation _ operand => operand.code ++ negationCode
  | .binary _ (some op) left right => left.code ++ right.code ++ operationCode op
  | _ => []

/-- The instructions of the whole program for a tree. -/
def Expr.programCode (e : Expr) : List Instruction :=
  e.code ++ [.pop (.register .rax), .ret]

/-- The change of depth that an instruction stands for. -/
def Instruction.depthChange : Instruction → Int
  | .push _ => 1
  | .pop _ => -1
  | _ => 0

end ArithAsm
