import ArithAsm.Decimal.Integer
import ArithAsm.Diagnostic
import ArithAsm.Log
import ArithAsm.Source.Segment
import ArithAsm.Text.Line

/-!
# Token streams

What a reader of a source text is given, in order: tokens up to the one that marks the end,
or a fault at the first segment that is no token.  Nothing is read ahead, so a reader that
stops early meets neither the fault nor the event reported at the end.
-/

namespace ArithAsm

/-- The largest literal, `2 ^ 63 - 1`, which is the largest signed word. -/
def maxLiteral : Nat := 9223372036854775807

/-- Why a segment is no token. -/
inductive LexFault where
  /-- A character that starts no token. -/
  | stray (c : Char) (place : Location) (line : String)
  /-- A number beyond `maxLiteral`. -/
  | outOfRange (run : String) (place : Location) (line : String)
  /-- A run of more than `maxDigits` digits. -/
  | tooManyDigits (count : Nat)
deriving DecidableEq, Inhabited

/-- What arrives when a reader asks for more. -/
inductive Arrival where
  | token (token : Token)
  /-- Reported on the way to the next token. -/
  | event (event : Event)
  | fault (fault : LexFault)
deriving DecidableEq, Inhabited

abbrev Stream := List Arrival

def digitsValue (run : List Char) : Nat :=
  run.foldl (fun n c => 10 * n + (c.toNat - '0'.toNat)) 0

theorem digitsValue_toDigits (n : Nat) : digitsValue (Nat.toDigits 10 n) = n :=
  Nat.ofDigitChars_eq_foldl.symm.trans Nat.ofDigitChars_ten_toDigits

/-- The number that a run of digits denotes, unless the run is too long.  Leading zeros count. -/
def readDigits (run : List Char) : Except LexFault Nat :=
  if run.length > maxDigits then .error (.tooManyDigits run.length) else .ok (digitsValue run)

/-- The integer that a run of digits denotes, after a minus sign or without one, unless the run
is too long. -/
def readInteger (text : String) : Except LexFault Int :=
  match text.toList with
  | '-' :: run => (readDigits run).map fun n => -(n : Int)
  | run => (readDigits run).map fun n => (n : Int)

/-- The token at a run of digits, unless the run is too long or the number too large. -/
def numberAt (place : Location) (line : String) (run : List Char) : Arrival :=
  match readDigits run with
  | .error fault => .fault fault
  | .ok n =>
      if n > maxLiteral then .fault (.outOfRange (String.ofList run) place line)
      else .token ⟨.number (some n), place⟩

namespace Stream

/-- The arrivals for segments that start at a column, after `count` tokens.  The last one is
the first fault, or else the token at the end, right after the event that tells the count. -/
def ofSegments (source line : String) : (column count : Nat) → List Segment → Stream
  | column, count, [] =>
      [.event (.tokenized source count), .token ⟨.finish none, ⟨source, 1, column⟩⟩]
  | column, count, .blank _ :: rest => ofSegments source line (column + 1) count rest
  | column, count, .mark m :: rest =>
      .token ⟨.mark m (some m.char.toString), ⟨source, 1, column⟩⟩ ::
        ofSegments source line (column + 1) (count + 1) rest
  | column, count, .digits run :: rest =>
      match numberAt ⟨source, 1, column⟩ line run with
      | .fault fault => [.fault fault]
      | arrival =>
          arrival :: ofSegments source line (column + run.length) (count + 1) rest
  | column, _, .stray c :: _ => [.fault (.stray c ⟨source, 1, column⟩ line)]

def ofText (source text : String) : Stream :=
  ofSegments source (Text.firstLine text) 1 0 (Segment.ofText text.toList)

def ofTokens (tokens : List Token) : Stream :=
  tokens.map .token

/-- Asks for the next token.  The answer is `none` where nothing is left; events on the way
are passed over. -/
def next : Stream → Option (Except LexFault Token) × Stream
  | [] => (none, [])
  | .event _ :: rest => next rest
  | .token token :: rest => (some (.ok token), rest)
  | .fault fault :: rest => (some (.error fault), rest)

/-- All tokens of a stream, or its first fault. -/
def tokens : Stream → Except LexFault (List Token)
  | [] => .ok []
  | .event _ :: rest => tokens rest
  | .token token :: rest => (tokens rest).map (token :: ·)
  | .fault fault :: _ => .error fault

/-- The events of a stream up to its first fault. -/
def events : Stream → List Event
  | [] => []
  | .event event :: rest => event :: events rest
  | .token _ :: rest => events rest
  | .fault _ :: _ => []

end Stream

end ArithAsm
