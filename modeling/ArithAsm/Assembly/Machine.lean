import ArithAsm.Assembly.Instruction

/-!
# The machine

The meaning of the instructions: 64-bit registers, arithmetic modulo `2 ^ 64`, and a stack that
grows towards lower cells.  A run ends when it returns, and it may trap or get stuck before.
-/

namespace ArithAsm

/-- The content of a register or of a stack cell. -/
abbrev Word64 := BitVec 64

/-- The state of the machine.  Stack cells are numbered, and `top` is the one pushed last. -/
structure Machine where
  registers : Register → Word64
  cells : Int → Word64
  top : Int

namespace Machine

def set (m : Machine) (r : Register) (w : Word64) : Machine :=
  { m with registers := fun other => if other = r then w else m.registers other }

def push (m : Machine) (w : Word64) : Machine :=
  { m with
    cells := fun cell => if cell = m.top - 1 then w else m.cells cell
    top := m.top - 1 }

def peek (m : Machine) : Word64 :=
  m.cells m.top

def drop (m : Machine) : Machine :=
  { m with top := m.top + 1 }

@[simp] theorem set_same (m : Machine) (r : Register) (w : Word64) :
    (m.set r w).registers r = w := by
  simp [set]

@[simp] theorem set_other (m : Machine) {r other : Register} (h : other ≠ r) (w : Word64) :
    (m.set r w).registers other = m.registers other := by
  simp [set, h]

@[simp] theorem peek_push (m : Machine) (w : Word64) : (m.push w).peek = w := by
  simp [push, peek]

theorem cells_push_of_le (m : Machine) (w : Word64) {cell : Int} (h : m.top ≤ cell) :
    (m.push w).cells cell = m.cells cell := by
  have hne : cell ≠ m.top - 1 := by omega
  simp [push, hne]

@[simp] theorem top_push (m : Machine) (w : Word64) : (m.push w).top = m.top - 1 := rfl

@[simp] theorem top_drop (m : Machine) : m.drop.top = m.top + 1 := rfl

end Machine

/-- What becomes of a run. -/
inductive RunOutcome where
  /-- The code is used up. -/
  | running (m : Machine)
  /-- It returns to its caller. -/
  | returned (m : Machine)
  /-- A division fails. -/
  | trapped
  /-- An instruction has no meaning here. -/
  | stuck

/-- The constants that a push can hold, from `-2 ^ 31` to `2 ^ 31 - 1`.  They are extended to a
word with their sign. -/
def fitsPush (n : Int) : Bool :=
  -2147483648 ≤ n && n < 2147483648

/-- Whether an integer is a signed word, from `-2 ^ 63` to `2 ^ 63 - 1`. -/
def fitsWord (n : Int) : Bool :=
  -9223372036854775808 ≤ n && n < 9223372036854775808

/-- Divides the signed number in `rdx:rax` by the one in `rdi`, dropping the fraction: the
quotient goes to `rax`, the remainder to `rdx`. -/
def Machine.divide (m : Machine) : RunOutcome :=
  let dividend := (m.registers .rdx ++ m.registers .rax).toInt
  let divisor := (m.registers .rdi).toInt
  if divisor = 0 then .trapped
  else
    let quotient := dividend.tdiv divisor
    if fitsWord quotient then
      .running ((m.set .rax (.ofInt 64 quotient)).set .rdx (.ofInt 64 (dividend.tmod divisor)))
    else .trapped

def Instruction.step (i : Instruction) (m : Machine) : RunOutcome :=
  match i with
  | push (.immediate c) =>
      if fitsPush c.value then .running (m.push (.ofInt 64 c.value)) else .stuck
  | push (.register r) => .running (m.push (m.registers r))
  | pop (.register r) => .running (m.drop.set r m.peek)
  | load c => if fitsWord c.value then .running (m.set .rax (.ofInt 64 c.value)) else .stuck
  | neg => .running (m.set .rax (-(m.registers .rax)))
  | add => .running (m.set .rax (m.registers .rax + m.registers .rdi))
  | sub => .running (m.set .rax (m.registers .rax - m.registers .rdi))
  | imul => .running (m.set .rax (m.registers .rax * m.registers .rdi))
  | cqo => .running (m.set .rdx (if (m.registers .rax).msb then .allOnes 64 else 0))
  | idiv => m.divide
  | ret => .returned m
  | _ => .stuck

/-- Runs instructions in order, until one ends the run. -/
def execute : List Instruction → Machine → RunOutcome
  | [], m => .running m
  | i :: rest, m =>
      match i.step m with
      | .running next => execute rest next
      | outcome => outcome

@[simp] theorem execute_nil (m : Machine) : execute [] m = .running m := rfl

/-- Running two pieces of code in turn is running the second from where the first ends. -/
theorem execute_append (first second : List Instruction) (m : Machine) :
    execute (first ++ second) m =
      match execute first m with
      | .running next => execute second next
      | outcome => outcome := by
  induction first generalizing m with
  | nil => rfl
  | cons i rest ih =>
    simp only [List.cons_append, execute]
    cases i.step m with
    | running next => exact ih next
    | returned next => rfl
    | trapped => rfl
    | stuck => rfl

/-- The instructions among the lines of a program. -/
def instructionsOf (lines : List Line) : List Instruction :=
  lines.filterMap fun
    | .code i => some i
    | _ => none

end ArithAsm
