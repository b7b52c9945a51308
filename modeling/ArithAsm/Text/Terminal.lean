/-!
# Terminal control sequences

Escape sequences that move the cursor, change colours and the like, and their removal from text
that does not go to a terminal.  A sequence is an escape character and an opening bracket, then
any number of parameters, then any number of intermediates, and at last one final character.
The three classes are ranges of ASCII that do not meet, so a sequence can be read in one way only.
-/

namespace ArithAsm.Text

namespace ControlSequence

/-- The character that every sequence starts with. -/
def escape : Char := '\x1b'

/-- Whether a character is in a range, both ends included. -/
def isBetween (first last c : Char) : Bool :=
  first ≤ c && c ≤ last

/-- The characters of parameters: digits, their separators, and marks of private use. -/
def isParameter (c : Char) : Bool := isBetween '0' '?' c

/-- The characters between the parameters and the end. -/
def isIntermediate (c : Char) : Bool := isBetween ' ' '/' c

def isFinal (c : Char) : Bool := isBetween '@' '~' c

/-- Whether a character carries an unfinished sequence on, after the last character of it. -/
def carriesOn (last c : Char) : Bool :=
  if last = escape then c = '['
  else if isIntermediate last then isIntermediate c
  else isParameter c || isIntermediate c

/-- Whether a character ends an unfinished sequence, after the last character of it. -/
def ends (last c : Char) : Bool :=
  last != escape && isFinal c

end ControlSequence

/-- Drops the sequences from a text.  Before it stands an unfinished sequence, `held`, in reverse;
it is dropped if the text finishes it, and otherwise kept. -/
def dropSequencesFrom : (held : List Char) → List Char → List Char
  | held, [] => held.reverse
  | [], c :: rest =>
      if c = ControlSequence.escape then dropSequencesFrom [c] rest
      else c :: dropSequencesFrom [] rest
  | last :: held, c :: rest =>
      if ControlSequence.carriesOn last c then dropSequencesFrom (c :: last :: held) rest
      else if ControlSequence.ends last c then dropSequencesFrom [] rest
      else if c = ControlSequence.escape then (last :: held).reverse ++ dropSequencesFrom [c] rest
      else (last :: held).reverse ++ c :: dropSequencesFrom [] rest

def dropSequences (text : String) : String :=
  String.ofList (dropSequencesFrom [] text.toList)

end ArithAsm.Text
