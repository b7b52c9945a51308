import ArithAsm.Decimal.Integer

/-!
# Assembly text

The lines of an assembly program in Intel notation: a few directives, labels, remarks, and
the instructions of a stack program on 64-bit registers.
-/

namespace ArithAsm

/-- The general registers but the stack pointer. -/
inductive Register where
  | rax
  | rbx
  | rcx
  | rdx
  | rsi
  | rdi
  | rbp
  | r8
  | r9
  | r10
  | r11
  | r12
  | r13
  | r14
  | r15
deriving DecidableEq, Inhabited

def Register.name : Register → String
  | rax => "rax"
  | rbx => "rbx"
  | rcx => "rcx"
  | rdx => "rdx"
  | rsi => "rsi"
  | rdi => "rdi"
  | rbp => "rbp"
  | r8 => "r8"
  | r9 => "r9"
  | r10 => "r10"
  | r11 => "r11"
  | r12 => "r12"
  | r13 => "r13"
  | r14 => "r14"
  | r15 => "r15"

/-- What an instruction moves: a constant, a register, or anything else by its text. -/
inductive Operand where
  | immediate (value : Constant)
  | register (register : Register)
  | verbatim (text : String)
deriving DecidableEq, Inhabited

def Operand.text : Operand → String
  | immediate value => value.text
  | register r => r.name
  | verbatim text => text

/-- An instruction.  Arithmetic takes its left operand from `rax`, its right operand from
`rdi`, and leaves its result in `rax`. -/
inductive Instruction where
  | push (operand : Operand)
  | pop (target : Operand)
  /-- Loads a constant into `rax`. -/
  | load (value : Constant)
  | neg
  | add
  | sub
  | imul
  /-- Extends the sign of `rax` into `rdx`. -/
  | cqo
  /-- Divides `rdx:rax`, the quotient going to `rax`. -/
  | idiv
  | ret
  /-- Any other instruction, by its text. -/
  | verbatim (text : String)
deriving DecidableEq, Inhabited

def Instruction.text : Instruction → String
  | push operand => s!"push {operand.text}"
  | pop target => s!"pop {target.text}"
  | load value => s!"mov rax, {value.text}"
  | neg => "neg rax"
  | add => "add rax, rdi"
  | sub => "sub rax, rdi"
  | imul => "imul rax, rdi"
  | cqo => "cqo"
  | idiv => "idiv rdi"
  | ret => "ret"
  | verbatim text => text

/-- A line of a program. -/
inductive Line where
  /-- Selects the notation. -/
  | notationChoice
  /-- Makes a label visible to the linker. -/
  | visible (name : String)
  | label (name : String)
  | remark (text : String)
  | code (instruction : Instruction)
deriving DecidableEq, Inhabited

def Line.text : Line → String
  | notationChoice => ".intel_syntax noprefix"
  | visible name => s!".globl {name}"
  | label name => s!"{name}:"
  | remark text => s!"  # {text}"
  | code instruction => s!"  {instruction.text}"

/-- A program as it is written, each line ended by a line feed. -/
def programText (lines : List Line) : String :=
  "\n".intercalate (lines.map Line.text) ++ "\n"

end ArithAsm
