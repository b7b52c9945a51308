import ArithAsm.Assembly.Draft
import ArithAsm.Diagnostic
import ArithAsm.Expr.Value
import ArithAsm.Sentence.Reading
import ArithAsm.Shell.Word
import ArithAsm.Text.Blank
import ArithAsm.Workspace

/-!
# Failures

Everything that can go wrong in one type, with the wording of each failure.  The faults of
the single parts are turned into failures here, where their messages get a place, a source
line and a hint.
-/

namespace ArithAsm

/-- A failure of some part. -/
inductive Failure where
  /-- A source is no expression: some text of it is no token. -/
  | lexical (text : String) (diagnostic : Diagnostic)
  /-- A source is no expression: a token does not fit. -/
  | grammatical (token : Option Token) (diagnostic : Diagnostic)
  /-- A program cannot be written. -/
  | drafting (diagnostic : Diagnostic)
  /-- Any other problem with a source. -/
  | source (diagnostic : Diagnostic)
  /-- An external command did not do its work. -/
  | toolchain (problem : String) (command : List String) (output : String)
  /-- The operating system refused. -/
  | system (fault : SystemFault)
  /-- A parameter of the command line has a wrong value. -/
  | misuse (message : String)
  /-- A look-up failed. -/
  | unknownKey (key : String)
  /-- A value is unusable. -/
  | badValue (message : String)
  /-- A thing of a wrong class turned up. -/
  | badClass (message : String)
  /-- A part that was asked for is absent. -/
  | absentPart (message : String)
  | zeroDivisor (message : String)
  /-- A number is too large. -/
  | overflow (message : String)
  /-- A stream had no more tokens. -/
  | exhausted
  | unspecific (message : String)
  | unforeseen (message : String)
deriving DecidableEq, Inhabited

/-- The hint where a source has a character that starts no token. -/
def alphabetHint : String :=
  "only digits, '+', '-', '*', '/', '(' and ')' are allowed"

namespace Failure

/-- The failure at a text that is no token.  Without a message it gets the usual one, and then
also the usual hint unless another is given. -/
def ofText (text : String) (message : Option String) (place : Option Location)
    (hint sourceLine : Option String) : Failure :=
  match message with
  | some message => .lexical text { message, place, hint, sourceLine }
  | none =>
      let hint := match hint with
        | some hint => if hint.isEmpty then alphabetHint else hint
        | none => alphabetHint
      .lexical text
        { message := s!"unrecognized character {Text.quoted text}", place, hint, sourceLine }

/-- The failure at a token, placed where the token is. -/
def ofToken (token : Option Token) (message : String) (hint sourceLine : Option String) :
    Failure :=
  .grammatical token { message, place := token.map Token.place, hint, sourceLine }

/-- The diagnostic of a failure that concerns a source. -/
def diagnostic? : Failure → Option Diagnostic
  | lexical _ d => some d
  | grammatical _ d => some d
  | drafting d => some d
  | source d => some d
  | _ => none

def message : Failure → String
  | lexical _ d => d.render
  | grammatical _ d => d.render
  | drafting d => d.render
  | source d => d.render
  | toolchain problem _ output =>
      if output.isEmpty then problem else problem ++ "\n" ++ Text.dropBlankEnd output
  | system fault => fault.message
  | misuse message => message
  | unknownKey key => Text.quoted key
  | badValue message => message
  | badClass message => message
  | absentPart message => message
  | zeroDivisor message => message
  | overflow message => message
  | exhausted => ""
  | unspecific message => message
  | unforeseen message => message

/-- The failure where an operation without an operator is to be named. -/
def noOperator : Failure :=
  .absentPart "'NoneType' object has no attribute 'name'"

/-- What stands for a trace while no failure is handled. -/
def noTrace : String := "NoneType: None"

/-- The failure where an integer of too many digits is to be written. -/
def tooLong : Failure :=
  .badValue (s!"Exceeds the limit ({maxDigits} digits) for integer string conversion; " ++
    "use sys.set_int_max_str_digits() to increase the limit")

end Failure

/-- The failure for a segment that is no token. -/
def LexFault.failure : LexFault → Failure
  | stray c place line => .ofText c.toString none (some place) none (some line)
  | outOfRange run place line =>
      .ofText run (some s!"integer literal {run} out of range") (some place)
        (some s!"literals must not exceed {maxLiteral}") (some line)
  | tooManyDigits count =>
      .badValue (s!"Exceeds the limit ({maxDigits} digits) for integer string conversion: " ++
        s!"value has {count} digits; use sys.set_int_max_str_digits() to increase the limit")

/-- The line of a source with a given number, counted from one. -/
def lineAt (lines : List String) (number : Int) : Option String :=
  if number > 0 then lines[(number - 1).toNat]? else none

/-- The failure for a token that does not fit, among the lines of its source.  Where the token
cannot be described, this is the failure. -/
def SyntaxFault.failure (lines : List String) (fault : SyntaxFault) : Failure :=
  match fault.found.describe? with
  | none => .tooLong
  | some found =>
      .ofToken (some fault.found) (fault.message found) fault.hint
        (lineAt lines fault.found.place.line)

def ReadFault.failure (lines : List String) : ReadFault → Failure
  | lexical fault => fault.failure
  | grammatical fault => fault.failure lines
  | exhausted => .exhausted

def ValueFault.failure (fault : ValueFault) : Failure :=
  match fault with
  | divisionByZero => .zeroDivisor fault.message
  | noMeaning _ => .badClass fault.message

def TextFault.failure : TextFault → Failure
  | noOperator => .noOperator
  | tooLong => .tooLong

def DraftFault.failure : DraftFault → Failure
  | emptyStack target =>
      .drafting { message := s!"pop into {target} from an empty evaluation stack" }
  | unbalanced node change =>
      .drafting { message := s!"{node} changed stack depth by {change}, expected 1" }
  | leftover depth =>
      .drafting { message := s!"evaluation stack holds {depth} values at exit, expected 1" }
  | noCode node => .drafting { message := s!"cannot generate code for {node}" }
  | noValue => .badClass "'<=' not supported between instances of 'int' and 'NoneType'"
  | noText fault => fault.failure

end ArithAsm
