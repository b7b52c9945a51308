import ArithAsm.Decimal.Shortest
import ArithAsm.Toolchain.World

/-!
# Building and running programs

A program is stored beside the executable it is to become, handed to the compiler, and run.
Every way in which one of the two commands may end other than well is a failure that names
the command.
-/

namespace ArithAsm

/-- The ending of file names for assembly text. -/
def assemblySuffix : String := ".s"

def ToolchainSettings.command (settings : ToolchainSettings) (executable program : Path) :
    List String :=
  settings.compiler :: settings.flags ++ ["-o", executable.text, program.text]

namespace Deed

/-- What comes of making an executable, by the ending of the compiler. -/
def finishLink (settings : ToolchainSettings) (executable program : Path)
    (ending : Ending String) : Deed Path :=
  let words := settings.command executable program
  let fail (problem output : String) : Deed Path := throw (.toolchain problem words output)
  match ending with
  | .exit status errors =>
      if status = 0 then return executable
      else fail s!"'{settings.compiler}' failed with exit status {status}" errors
  | .timedOut => fail s!"'{settings.compiler}' timed out after {settings.timeout.text}s" ""
  | .refused code reason =>
      if code = 2 then fail s!"compiler '{settings.compiler}' not found" ""
      else throw (.system ⟨code, reason, words.head?⟩)

/-- Has a stored program made into an executable, whose path is the answer. -/
def link (settings : ToolchainSettings) (executable program : Path) : Deed Path := do
  let words := settings.command executable program
  report (.running words)
  finishLink settings executable program (← start ⟨words, settings.timeout, true⟩)

/-- Stores a program and has it made into an executable. -/
def assemble (settings : ToolchainSettings) (assembly : String) (executable : Path) :
    Deed Path := do
  let some program := executable.withSuffix? assemblySuffix
    | throw (.badValue s!"PosixPath({Text.quoted executable.text}) has an empty name")
  store program assembly
  link settings executable program

/-- Runs an executable, which messages call by the given name, and answers its exit status. -/
def execute (settings : ToolchainSettings) (name : String) (executable : Path) : Deed Int := do
  checkPath executable
  let words := [(executable.resolve (← get).workspace.home).text]
  let fail (problem : String) : Deed Int := throw (.toolchain problem words "")
  match ← start ⟨words, settings.timeout, false⟩ with
  | .exit status _ =>
      report (.exited name status)
      return status
  | .timedOut => fail s!"{name} timed out after {settings.timeout.text}s"
  | .refused code reason =>
      let fault : SystemFault := ⟨code, reason, words.head?⟩
      fail s!"cannot execute {name}: {fault.message}"

/-- The name of an executable inside its build directory. -/
def executableName : String := "tmp"

/-- Builds a program in a directory and runs it. -/
def buildIn (settings : ToolchainSettings) (assembly : String) (directory : Path) :
    Deed Int := do
  let executable ← assemble settings assembly (directory.join executableName)
  execute settings executable.text executable

/-- Builds a program and runs it, in the directory of the settings or in a temporary one. -/
def buildAndRun (settings : ToolchainSettings) (assembly : String) : Deed Int :=
  match settings.workDir with
  | some directory => do
      ensure directory
      buildIn settings assembly directory
  | none => withTemporary (buildIn settings assembly)

end Deed

end ArithAsm
