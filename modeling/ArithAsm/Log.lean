import ArithAsm.Expr.Basic
import ArithAsm.Shell.Word
import ArithAsm.Text.Quoted

/-!
# The log

What the parts of the compiler report about their work, as events.  Wording, severity and
the name of the reporting part are functions of the event.
-/

namespace ArithAsm

/-- How much attention an event asks for. -/
inductive Severity where
  | debug
  | warning
deriving DecidableEq, Inhabited

def Severity.name : Severity → String
  | debug => "DEBUG"
  | warning => "WARNING"

/-- Something that was done or noticed. -/
inductive Event where
  /-- A source was read to its end and gave this many tokens, the end not counted. -/
  | tokenized (source : String) (count : Nat)
  /-- All tokens of a source were collected, the end included. -/
  | lexed (count : Nat)
  /-- Tokens of a source made up a tree. -/
  | parsed (source : String) (root : NodeClass)
  /-- A program of this many lines was written. -/
  | generated (lines : Nat)
  /-- A compilation stopped with this message. -/
  | abandoned (source : String) (message : String)
  /-- A value of the time limit that is no number was passed over. -/
  | ignoredTimeout (value : String)
  /-- A command is about to be started. -/
  | running (command : List String)
  /-- A program ended. -/
  | exited (program : String) (status : Int)
  /-- A result was stored in a file. -/
  | wrote (size : Nat) (target : String)
deriving DecidableEq, Inhabited

namespace Event

def severity : Event → Severity
  | ignoredTimeout _ => .warning
  | _ => .debug

def reporter : Event → String
  | tokenized .. => "exprcc.lexer"
  | lexed _ => "exprcc.compiler"
  | parsed .. => "exprcc.parser"
  | generated _ => "exprcc.codegen"
  | abandoned .. => "exprcc.compiler"
  | ignoredTimeout _ => "exprcc.toolchain"
  | running _ => "exprcc.toolchain"
  | exited .. => "exprcc.toolchain"
  | wrote .. => "exprcc.cli.exprcc"

def message : Event → String
  | tokenized source count => s!"Tokenized {source}: {count} tokens"
  | lexed count => s!"Lexed {count} tokens"
  | parsed source root => s!"Parsed {source}: root {root.name}"
  | generated lines => s!"Generated {lines} lines of assembly"
  | abandoned source message => s!"Compilation of {source} failed: {message}"
  | ignoredTimeout value => s!"Ignoring invalid EXPRCC_TIMEOUT={Text.quoted value}"
  | running command => s!"Running: {Shell.join command}"
  | exited program status => s!"{program} exited with status {status}"
  | wrote size target => s!"Wrote {size} bytes to {target}"

def record (event : Event) : String :=
  s!"{event.severity.name} {event.reporter}: {event.message}"

end Event

end ArithAsm
