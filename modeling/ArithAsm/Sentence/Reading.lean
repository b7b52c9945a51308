import ArithAsm.Sentence.Pending
import ArithAsm.Source.Stream

/-!
# Reading a sentence from a stream

A reading takes arrivals one at a time until a token completes a sentence or is refused, the
source has a fault, or nothing is left.  It asks for nothing beyond that point.
-/

namespace ArithAsm

/-- A token that does not fit. -/
structure SyntaxFault where
  expected : Expected
  found : Token
deriving DecidableEq, Inhabited

namespace SyntaxFault

def complaint (fault : SyntaxFault) : String :=
  match fault.expected with
  | .operand => "expected expression"
  | .closing _ => "unmatched parenthesis"
  | .finish => "unexpected trailing input"

/-- The message about the token, which is described as given. -/
def message (fault : SyntaxFault) (found : String) : String :=
  s!"{fault.complaint}, found '{found}'"

def hint (fault : SyntaxFault) : Option String :=
  match fault.expected, fault.found.word with
  | .operand, .mark .plus _ | .operand, .mark .minus _ =>
      some "only one sign is allowed per operand; use parentheses, e.g. -(-5)"
  | .operand, _ => none
  | .closing opening, _ => some s!"add ')' to close '(' at column {opening.column}"
  | .finish, _ => some "expected an operator or end of input"

end SyntaxFault

/-- Why a reading gives no tree. -/
inductive ReadFault where
  | lexical (fault : LexFault)
  | grammatical (fault : SyntaxFault)
  /-- More tokens were needed and none was left. -/
  | exhausted
deriving DecidableEq, Inhabited

/-- A reading: its outcome, the events on the way, and what it left in the stream. -/
structure Reading where
  outcome : Except ReadFault Expr
  events : List Event
  rest : Stream

def Pending.read : Pending → Stream → Reading
  | _, [] => ⟨.error .exhausted, [], []⟩
  | state, .event event :: rest =>
      let reading := state.read rest
      { reading with events := event :: reading.events }
  | _, .fault fault :: rest => ⟨.error (.lexical fault), [], rest⟩
  | state, .token token :: rest =>
      match state.step token with
      | .go next => next.read rest
      | .complete tree => ⟨.ok tree, [], rest⟩
      | .refuse expected => ⟨.error (.grammatical ⟨expected, token⟩), [], rest⟩

def Stream.read (stream : Stream) : Reading :=
  Pending.start.read stream

/-- Reads one sentence and reports a tree under the name of its source. -/
def Stream.parse (source : String) (stream : Stream) : Reading :=
  let reading := stream.read
  match reading.outcome with
  | .ok tree => { reading with events := reading.events ++ [.parsed source tree.nodeClass] }
  | .error _ => reading

end ArithAsm
