/-!
# Shell words

The words of a command line: how flags given as one text are split, and how a command is
written so that splitting gives it back.  Quotes and backslashes have their usual meaning;
there are no comments, variables or operators.
-/

namespace ArithAsm.Shell

/-- Why a text has no words. -/
inductive WordFault where
  /-- A quote is not closed. -/
  | openQuote
  /-- The text ends in a backslash that quotes nothing. -/
  | openEscape
deriving DecidableEq, Inhabited

def WordFault.message : WordFault → String
  | openQuote => "No closing quotation"
  | openEscape => "No escaped character"

def isSeparator (c : Char) : Bool :=
  c == ' ' || c == '\t' || c == '\n' || c == '\r'

/-- The two quote marks.  A backslash keeps its meaning between double quotes only. -/
def isQuote (c : Char) : Bool :=
  c == '"' || c == '\x27'

/-- How far a splitter has come. -/
inductive Position where
  /-- Between words. -/
  | between
  /-- In a word, outside quotes. -/
  | inside
  /-- Between two quote marks of this kind. -/
  | quoted (mark : Char)
  /-- After a backslash outside quotes. -/
  | escaped
  /-- After a backslash between two quote marks of this kind. -/
  | quotedEscaped (mark : Char)
deriving DecidableEq

/-- The position that a character outside quotes leads to, if it is no separator; the flag
tells whether the character belongs to the word. -/
def Position.enter (c : Char) : Position × Bool :=
  if isQuote c then (.quoted c, false)
  else if c = '\\' then (.escaped, false)
  else (.inside, true)

/-- Splits the rest of a text, given the word read so far in reverse.  Between double quotes a
backslash is dropped only before a double quote or another backslash. -/
def splitFrom : Position → List Char → List Char → Except WordFault (List String)
  | .between, _, [] => .ok []
  | .inside, word, [] => .ok [String.ofList word.reverse]
  | .quoted _, _, [] => .error .openQuote
  | .escaped, _, [] => .error .openEscape
  | .quotedEscaped _, _, [] => .error .openEscape
  | .between, word, c :: rest =>
      if isSeparator c then splitFrom .between word rest
      else
        let (position, kept) := Position.enter c
        splitFrom position (if kept then [c] else []) rest
  | .inside, word, c :: rest =>
      if isSeparator c then
        (splitFrom .between [] rest).map (String.ofList word.reverse :: ·)
      else
        let (position, kept) := Position.enter c
        splitFrom position (if kept then c :: word else word) rest
  | .quoted mark, word, c :: rest =>
      if c = mark then splitFrom .inside word rest
      else if c = '\\' && mark == '"' then splitFrom (.quotedEscaped mark) word rest
      else splitFrom (.quoted mark) (c :: word) rest
  | .escaped, word, c :: rest => splitFrom .inside (c :: word) rest
  | .quotedEscaped mark, word, c :: rest =>
      if c = mark || c = '\\' then splitFrom (.quoted mark) (c :: word) rest
      else splitFrom (.quoted mark) (c :: '\\' :: word) rest

def split (text : String) : Except WordFault (List String) :=
  splitFrom .between [] text.toList

def isPlain (c : Char) : Bool :=
  c.isAlphanum || "_@%+=:,./-".toList.contains c

/-- A word as it is written in a command line.  Inside single quotes, an apostrophe is written
by closing them, quoting it doubly and opening them again. -/
def quote (word : String) : String :=
  if word.isEmpty then "''"
  else if word.toList.all isPlain then word
  else
    String.ofList ('\x27' :: word.toList.flatMap (fun c =>
      if c = '\x27' then "'\"'\"'".toList else [c]) ++ ['\x27'])

/-- A command line that splits into the given words. -/
def join (words : List String) : String :=
  " ".intercalate (words.map quote)

end ArithAsm.Shell
