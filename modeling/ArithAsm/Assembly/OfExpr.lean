import ArithAsm.Assembly.Draft
import ArithAsm.Expr.Basic

/-!
# Programs for expressions

An expression becomes a stack program: a literal pushes its value, and an operation replaces
the values of its operands by its own.  The left operand is computed first, so the right one
ends up on top.  While a program is drafted the depth of its stack is checked against what
each node should leave.
-/

namespace ArithAsm

/-- The least and the greatest constant that a push can hold: `-2 ^ 31` and `2 ^ 31 - 1`. -/
def pushRange : Int × Int := (-2147483648, 2147483647)

/-- The instructions that combine `rax` with `rdi`. -/
def Op.instructions : Op → List Instruction
  | add => [.add]
  | sub => [.sub]
  | mul => [.imul]
  | div => [.cqo, .idiv]

namespace Draft

variable {m : Type → Type} [Monad m] [MonadStateOf Draft m] [MonadExceptOf DraftFault m]

/-- The label of the root, which it must have. -/
def labelOf (e : Expr) : m String :=
  match e.label? with
  | some label => return label
  | none => throw (.noText e.textFault)

/-- The constant for a number, which must be short enough to be written. -/
def constant (n : Int) : m Constant :=
  match Constant.of? n with
  | some c => return c
  | none => throw (.noText .tooLong)

/-- The remark on the code of a node.  The node must have a label even where remarks are not
wanted. -/
def remarkOn (style : DraftStyle) (e : Expr) : m Unit := do
  remark style (← labelOf e)

/-- Pushes a literal, by way of `rax` where it is too large for a push. -/
def literal (c : Constant) : m Unit := do
  if pushRange.1 ≤ c.value ∧ c.value ≤ pushRange.2 then
    push (.immediate c)
  else
    code (.load c)
    push (.register .rax)

/-- Pushes a value, or the word for its absence, just as it is written. -/
def pushValue : Option Int → m Unit
  | some n => do push (.immediate (← constant n))
  | none => push (.verbatim Expr.absentText)

/-- Runs the step that writes a node's code and checks that the code adds one value to the
stack. -/
def balanced (style : DraftStyle) (e : Expr) (step : m Unit) : m Unit := do
  let before := (← get).depth
  step
  let after := (← get).depth
  if style.checked ∧ after ≠ before + 1 then
    throw (.unbalanced (← labelOf e) ((after : Int) - before))

def write (style : DraftStyle) : Expr → m Unit
  | e@(.literal _ value) => balanced style e do
      match style.literalPushes, value with
      | some count, value => (List.replicate count value).forM pushValue
      | none, some n => do
          remarkOn style e
          literal (← constant n)
      | none, none => do
          remarkOn style e
          throw .noValue
  | e@(.negation _ operand) => balanced style e do
      write style operand
      remarkOn style e
      pop (.register .rax)
      code .neg
      push (.register .rax)
  | e@(.binary _ op left right) => balanced style e do
      write style left
      write style right
      let some op := op | throw (.noText .noOperator)
      remarkOn style e
      pop (.register .rdi)
      pop (.register .rax)
      op.instructions.forM code
      push (.register .rax)
  | e => throw (.noCode e.nodeClass.name)

/-- Drafts a whole program on a fresh sheet and gives its lines. -/
def program (style : DraftStyle) (e : Expr) : m (List Line) := do
  set ({} : Draft)
  opening style
  write style e
  let depth := (← get).depth
  if depth ≠ 1 then throw (.leftover depth)
  closing style
  return (← get).lines.toList

end Draft

/-- The lines of the program for a tree, or why there are none. -/
def Expr.program (style : DraftStyle) (e : Expr) : Except DraftFault (List Line) :=
  ((Draft.program style e : Draft.Writing (List Line)).run.run {}).1

end ArithAsm
