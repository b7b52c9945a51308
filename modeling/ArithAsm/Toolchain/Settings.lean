import ArithAsm.Compilation
import ArithAsm.Decimal.Numeral
import ArithAsm.Path

/-!
# Toolchain settings

Which compiler turns a program into an executable, with which flags, where, and how long a
command may take.  Settings come from the environment; an unset or empty variable leaves the
default.
-/

namespace ArithAsm

/-- The variables of a process and their values. -/
abbrev Environment := List (String × String)

/-- The value of a variable that is set and not empty. -/
def Environment.value? (environment : Environment) (name : String) : Option String :=
  (environment.lookup name).filter (· ≠ "")

/-- How programs are built and run. -/
structure ToolchainSettings where
  compiler : String := "cc"
  flags : List String := []
  /-- The directory that keeps the products; a temporary one where none is given. -/
  workDir : Option Path := none
  /-- The seconds that a command may take. -/
  timeout : Binary64 := .ofQuotient false 10 1
deriving Inhabited

namespace ToolchainSettings

/-- The time limit in the environment.  A value that is no number is reported and passed over. -/
def timeoutOf (environment : Environment) (default : Binary64) : Binary64 × List Event :=
  match environment.value? "EXPRCC_TIMEOUT" with
  | none => (default, [])
  | some value =>
      match Numeral.read? value with
      | some timeout => (timeout, [])
      | none => (default, [.ignoredTimeout value])

def flagsOf (environment : Environment) : Except Failure (List String) :=
  match environment.value? "EXPRCC_CFLAGS" with
  | none => .ok []
  | some flags => (Shell.split flags).mapError fun fault => .badValue fault.message

/-- The settings in an environment.  Flags that cannot be split are an error. -/
def ofEnvironment (environment : Environment) : Logged ToolchainSettings :=
  match flagsOf environment with
  | .error failure => ⟨.error failure, []⟩
  | .ok flags =>
      let defaults : ToolchainSettings := {}
      let (timeout, events) := timeoutOf environment defaults.timeout
      let compiler := (environment.value? "EXPRCC_CC").getD defaults.compiler
      let workDir := (environment.value? "EXPRCC_WORK_DIR").map Path.ofText
      ⟨.ok { compiler, flags, workDir, timeout }, events⟩

end ToolchainSettings

def machines : List String := ["x86_64", "amd64"]

/-- Whether programs can be built and run: the machine must be of the right kind, in any case of
letters, and the compiler must be installed. -/
def ToolchainSettings.available (settings : ToolchainSettings) (machine : String)
    (installed : List String) : Bool :=
  machines.contains machine.toLower && installed.contains settings.compiler

end ArithAsm
