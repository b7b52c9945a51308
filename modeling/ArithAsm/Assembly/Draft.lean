import ArithAsm.Assembly.Instruction
import ArithAsm.Expr.Basic

/-!
# Drafting a program

A program is drafted line by line, with a count of the values that the code so far leaves
on the stack.  A step may fail; the draft then keeps what was written before.  The steps need
not know where the draft is kept: any place will do that can hold one and take a failure.
-/

namespace ArithAsm

/-- A program in the making. -/
structure Draft where
  lines : Array Line := #[]
  /-- Values on the stack: pushes less pops. -/
  depth : Nat := 0
deriving DecidableEq, Inhabited

/-- Why a program cannot be written. -/
inductive DraftFault where
  /-- A value is taken from an empty stack. -/
  | emptyStack (target : String)
  /-- The code of a node changes the depth by something else than one. -/
  | unbalanced (node : String) (change : Int)
  /-- The stack does not hold just the result when the program ends. -/
  | leftover (depth : Nat)
  /-- Nodes of a class have no code. -/
  | noCode (node : String)
  /-- A literal lacks its value. -/
  | noValue
  /-- A label or a constant cannot be written. -/
  | noText (fault : TextFault)
deriving DecidableEq, Inhabited

/-- What the code of a program may vary in. -/
structure DraftStyle where
  /-- The label at which the program is entered. -/
  entry : String := "main"
  /-- Whether each node's code carries a remark. -/
  remarks : Bool := false
  /-- How many plain pushes stand for a literal; its usual code where there is no number. -/
  literalPushes : Option Nat := none
  /-- Whether each node's effect on the depth is checked. -/
  checked : Bool := true
deriving DecidableEq, Inhabited

namespace Draft

/-- The place where programs are usually drafted. -/
abbrev Writing := ExceptT DraftFault (StateM Draft)

variable {m : Type → Type} [Monad m] [MonadStateOf Draft m] [MonadExceptOf DraftFault m]

/-- Adds a line that leaves the stack alone. -/
def line (l : Line) : m Unit :=
  modify fun d => { d with lines := d.lines.push l }

/-- Adds an instruction that leaves the stack alone. -/
def code (i : Instruction) : m Unit :=
  line (.code i)

def remark (style : DraftStyle) (text : String) : m Unit := do
  if style.remarks then line (.remark text)

/-- Adds a push and counts it. -/
def push (operand : Operand) : m Unit :=
  modify fun d => { lines := d.lines.push (.code (.push operand)), depth := d.depth + 1 }

/-- Adds a pop and counts it.  There must be a value to take. -/
def pop (target : Operand) : m Unit := do
  if (← get).depth = 0 then throw (.emptyStack target.text)
  modify fun d => { lines := d.lines.push (.code (.pop target)), depth := d.depth - 1 }

/-- The lines before the code of the expression. -/
def opening (style : DraftStyle) : m Unit := do
  line .notationChoice
  line (.visible style.entry)
  line (.label style.entry)

/-- The lines after it, which return the result. -/
def closing (style : DraftStyle) : m Unit := do
  remark style "return value becomes the exit status"
  pop (.register .rax)
  code .ret

end Draft

end ArithAsm
