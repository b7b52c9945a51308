import ArithAsm.CommandLine.Request
import ArithAsm.Expr.Diagram
import ArithAsm.Expr.Outline
import ArithAsm.Text.Terminal
import ArithAsm.Toolchain.Build

/-!
# Responses

The answer to a command line: an exit code and two texts.  A failure is reported on the error
output and decides the exit code; the normal output then stays empty.
-/

namespace ArithAsm

/-- Exit codes of the command. -/
inductive ExitCode where
  | success
  /-- The source is no expression. -/
  | buildError
  /-- The arguments are wrong, or the output cannot be written. -/
  | invalidArguments
  | internalError
  /-- An external command failed. -/
  | toolchainError
deriving DecidableEq, Inhabited

def ExitCode.toNat : ExitCode → Nat
  | success => 0
  | buildError => 1
  | invalidArguments => 2
  | internalError => 3
  | toolchainError => 4

/-- Whether a refusal is laid to the arguments: a file is missing, forbidden or a directory. -/
def SystemFault.isArgumentFault (fault : SystemFault) : Bool :=
  fault.code = 2 || fault.code = 1 || fault.code = 13 || fault.code = 21

namespace Failure

def exitCode : Failure → ExitCode
  | lexical .. => .buildError
  | grammatical .. => .buildError
  | source _ => .buildError
  | toolchain .. => .toolchainError
  | misuse _ => .invalidArguments
  | system fault => if fault.isArgumentFault then .invalidArguments else .internalError
  | _ => .internalError

/-- The report of a failure: its text, led by a word for its kind.  At greater length, an
internal error is followed by a trace. -/
def report (failure : Failure) (verbose : Bool) (trace : String) : String :=
  let title := match failure.exitCode with
    | .toolchainError => "Toolchain error: "
    | .invalidArguments => "Error: "
    | .internalError => "Internal error: "
    | _ => ""
  let trace := if verbose && failure.exitCode == .internalError then trace ++ "\n" else ""
  Text.dropSequences (title ++ failure.message) ++ "\n" ++ trace

end Failure

namespace CommandLine

/-- The answer to a command line. -/
structure Response where
  exitCode : ExitCode
  output : String := ""
  errors : String := ""
deriving DecidableEq, Inhabited

/-- The line that tells the use of the command. -/
def usageLine : String := "Usage: exprcc [OPTIONS] EXPRESSION\n"

def versionText : String := "exprcc, version 0.1.0\n"

def helpText : String :=
  usageLine ++ "\n".intercalate [
   "",
   "  Compile an arithmetic expression to x86-64 assembly.",
   "",
   "  EXPRESSION is a single line using integers, + - * /, parentheses and one",
   "  leading sign per operand. The assembled program exits with the value of the",
   "  expression (modulo 256).",
   "",
   "  Examples:",
   "      exprcc \"5+6*7\" > tmp.s       # Then: cc -o tmp tmp.s && ./tmp",
   "      exprcc \"5-(-1+2)\" -o tmp.s   # Write to a file",
   "      exprcc --mode ast \"1-2-3\"    # Show the parsed tree",
   "      exprcc --run \"+5+(-2)\"       # Build, run, print 3",
   "",
   "Options:",
   "  --mode [token|ast|dot|x86]  Stop after tokenizing (token), parsing (ast, dot)",
   "                              or emit assembly (x86)  [default: x86]",
   "  -o, --output FILE           Write output to a file instead of stdout",
   "  --comments                  Annotate the assembly with expression-tree",
   "                              comments",
   "  --entry TEXT                Entry symbol of the generated program  [default:",
   "                              main]",
   "  --run                       Assemble, link and run the program, then print its",
   "                              exit status",
   "  -v, --verbose               Verbose output",
   "  --version                   Show the version and exit.",
   "  --help                      Show this message and exit."] ++ "\n"

namespace UsageFault

def message : UsageFault → String
  | valueMissing name => s!"Option '{name}' requires an argument."
  | valueUnwanted name => s!"Option '{name}' does not take a value."
  | noSuchMode value =>
      let modes := ", ".intercalate (Mode.all.map fun mode => s!"'{mode.name}'")
      s!"Invalid value for '--mode': {Text.quoted value} is not one of {modes}."
  | outputIsDirectory value =>
      s!"Invalid value for '-o' / '--output': File {Text.quoted value} is a directory."
  | nothingToDo => "Missing argument 'EXPRESSION'."
  | tooMany extra =>
      let noun := if extra.length = 1 then "argument" else "arguments"
      let given := " ".intercalate extra
      s!"Got unexpected extra {noun} ({given})"

/-- Whether the use of the command is recalled: not where a switch is badly written. -/
def recallsUse : UsageFault → Bool
  | valueMissing _ => false
  | valueUnwanted _ => false
  | _ => true

def report (fault : UsageFault) : String :=
  let use := if fault.recallsUse then usageLine ++ "Try 'exprcc --help' for help.\n\n" else ""
  Text.dropSequences s!"{use}Error: {fault.message}\n"

end UsageFault

namespace Request

/-- The name under which diagnostics speak of the expression. -/
def sourceName : String := "<input>"

def shown (tree : Expr) (draw : Expr → Except TextFault String) : Logged String :=
  match draw tree with
  | .ok text => ⟨.ok (text ++ "\n"), []⟩
  | .error fault => ⟨.error fault.failure, []⟩

def product (request : Request) : Logged String :=
  match request.mode with
  | .token =>
      (Compilation.collect sourceName request.expression).andThen fun tokens =>
        ⟨.ok ("\n".intercalate (tokens.map Token.display) ++ "\n"), []⟩
  | .ast =>
      (Compilation.parseCollected sourceName request.expression).andThen fun tree =>
        shown tree Expr.outline
  | .dot =>
      (Compilation.parseCollected sourceName request.expression).andThen fun tree =>
        shown tree Expr.diagram
  | .x86 =>
      (Compilation.compile { entry := request.entry, remarks := request.remarks } sourceName
        request.expression).andThen fun compiled => ⟨.ok compiled.assembly, []⟩

/-- Does what is asked for and answers the normal output.  A program to be run is run before it
is stored. -/
def perform (request : Request) : Deed String := do
  if request.run && request.mode ≠ .x86 then throw (.misuse "--run requires --mode x86")
  let text ← Deed.ofLogged request.product
  if request.run then
    let status ← Deed.buildAndRun (← Deed.settings none) text
    if let some output := request.output then Deed.store output text
    return s!"{status}\n"
  else
    match request.output with
    | some output =>
        Deed.store output text
        Deed.report (.wrote text.length output.text)
        return ""
    | none => return Text.dropSequences text

/-- The events that are shown on the error output: all of them, or, where that was not asked
for, the warnings without their severity. -/
def shownEvents (verbose : Bool) (events : List Event) : String :=
  if verbose then
    String.join (events.map fun event => s!"{event.severity.name}: {event.message}\n")
  else
    String.join ((events.filter (·.severity = .warning)).map fun event => s!"{event.message}\n")

/-- The answer to a request, and the world after it. -/
def respond (request : Request) (world : World) : Response × World :=
  let (result, after) := request.perform.run.run world
  let events := shownEvents request.verbose (after.events.drop world.events.length)
  match result with
  | .ok output => ({ exitCode := .success, output, errors := events }, after)
  | .error failure =>
      let report := failure.report request.verbose (world.trace failure)
      ({ exitCode := failure.exitCode, errors := events ++ report }, after)

end Request

/-- The answer to a list of arguments, and the world after it. -/
def respond (arguments : List String) (world : World) : Response × World :=
  match Intent.ofArguments world.workspace arguments with
  | .error fault => ({ exitCode := .invalidArguments, errors := fault.report }, world)
  | .ok .showHelp => ({ exitCode := .success, output := helpText }, world)
  | .ok .showVersion => ({ exitCode := .success, output := versionText }, world)
  | .ok (.process request) => request.respond world

end CommandLine

end ArithAsm
