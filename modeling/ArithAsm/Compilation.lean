import ArithAsm.Assembly.OfExpr
import ArithAsm.Failure
import ArithAsm.Log
import ArithAsm.Text.Line

/-!
# Compilation

From a source text to a program.  A compilation collects all tokens before it reads the
sentence, so a text with a fault anywhere fails by that fault; a plain reading takes tokens
as it needs them.  Every function gives its events beside its result, also where it fails.
-/

namespace ArithAsm

/-- A result with the events on the way to it. -/
structure Logged (α : Type) where
  result : Except Failure α
  events : List Event

def Logged.andThen {α β : Type} (first : Logged α) (next : α → Logged β) : Logged β :=
  match first.result with
  | .error failure => ⟨.error failure, first.events⟩
  | .ok a =>
      let second := next a
      ⟨second.result, first.events ++ second.events⟩

/-- What a program may be compiled with. -/
structure CompilerOptions where
  entry : String := "main"
  remarks : Bool := false
deriving DecidableEq, Inhabited

/-- The outcome of a compilation, with what it found on the way. -/
structure Compiled where
  source : String
  text : String
  tokens : List Token
  tree : Expr
  lines : List Line
deriving Inhabited

/-- The program of a compilation as it is written. -/
def Compiled.assembly (compiled : Compiled) : String :=
  programText compiled.lines

namespace Compilation

def tokens (source text : String) : Logged (List Token) :=
  let stream := Stream.ofText source text
  ⟨stream.tokens.mapError LexFault.failure, stream.events⟩

/-- A sentence read from a stream, among the lines of its source. -/
def ofStream (source : String) (lines : List String) (stream : Stream) : Logged Expr :=
  let reading := stream.parse source
  ⟨reading.outcome.mapError (ReadFault.failure lines), reading.events⟩

/-- The tree of a text, read as the tokens come. -/
def parse (source text : String) : Logged Expr :=
  ofStream source (Text.lines text) (Stream.ofText source text)

/-- All tokens of a text, with an event that tells their number. -/
def collect (source text : String) : Logged (List Token) :=
  (tokens source text).andThen fun found => ⟨.ok found, [.lexed found.length]⟩

def ofTokens (source text : String) (found : List Token) : Logged Expr :=
  ofStream source (Text.lines text) (Stream.ofTokens found)

/-- The tree of a text, read once all tokens are there. -/
def parseCollected (source text : String) : Logged Expr :=
  (collect source text).andThen (ofTokens source text)

def assemble (style : DraftStyle) (tree : Expr) : Logged (List Line) :=
  match tree.program style with
  | .error fault => ⟨.error fault.failure, []⟩
  | .ok lines => ⟨.ok lines, [.generated lines.length]⟩

def stages (options : CompilerOptions) (source text : String) : Logged Compiled :=
  (collect source text).andThen fun found =>
    (ofTokens source text found).andThen fun tree =>
      (assemble { entry := options.entry, remarks := options.remarks } tree).andThen fun lines =>
        ⟨.ok { source, text, tokens := found, tree, lines }, []⟩

/-- Compiles a text.  A failure that concerns the source is reported as an event too. -/
def compile (options : CompilerOptions) (source text : String) : Logged Compiled :=
  let compiled := stages options source text
  match compiled.result with
  | .ok _ => compiled
  | .error failure =>
      match failure.diagnostic? with
      | some d => { compiled with events := compiled.events ++ [.abandoned source d.message] }
      | none => compiled

end Compilation

end ArithAsm
