import ArithAsm.Source.Stream

/-!
# Readers of one source

Any number of readers may go over the same source, each with a stream of its own that starts at
the first token.  What one reader takes is not missing for another.
-/

namespace ArithAsm

/-- A source, as the stream that every reader starts with, and what its readers have still to
read.  Readers are numbered from zero in the order in which they started. -/
structure Readers where
  whole : Stream
  streams : List Stream := []
deriving DecidableEq, Inhabited

namespace Readers

/-- The readers of a source text, of which there are none yet. -/
def ofText (source text : String) : Readers :=
  { whole := Stream.ofText source text }

def start (readers : Readers) : Nat × Readers :=
  (readers.streams.length, { readers with streams := readers.streams ++ [readers.whole] })

/-- Has a reader take its next token.  A reader that was never started finds nothing. -/
def take (readers : Readers) (number : Nat) : Option (Except LexFault Token) × Readers :=
  let (arrival, rest) := (readers.streams.getD number []).next
  (arrival, { readers with streams := readers.streams.set number rest })

end Readers

end ArithAsm
