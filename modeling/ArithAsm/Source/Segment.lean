import ArithAsm.Token

/-!
# Segments of a source text

A source text falls into blanks, marks, runs of digits and stray characters.  Runs are as
long as they can be, so the segments of a text are determined by it, and put end to end
they give it back.
-/

namespace ArithAsm

/-- A piece of source text. -/
inductive Segment where
  | blank (c : Char)
  | mark (mark : Mark)
  | digits (run : List Char)
  | stray (c : Char)
deriving DecidableEq, Inhabited

namespace Segment

def text : Segment → List Char
  | blank c => [c]
  | mark m => [m.char]
  | digits run => run
  | stray c => [c]

def isBlank (c : Char) : Bool :=
  c == ' ' || c == '\t'

/-- The segment that one character makes up on its own. -/
def ofChar (c : Char) : Segment :=
  if c.isDigit then .digits [c]
  else if isBlank c then .blank c
  else
    match Mark.ofChar? c with
    | some m => .mark m
    | none => .stray c

/-- Puts a character in front of segments.  A digit joins a run that comes next. -/
def cons (c : Char) (segments : List Segment) : List Segment :=
  match segments with
  | .digits run :: rest => if c.isDigit then .digits (c :: run) :: rest else ofChar c :: segments
  | _ => ofChar c :: segments

def ofText (text : List Char) : List Segment :=
  text.foldr cons []

@[simp] theorem text_ofChar (c : Char) : (ofChar c).text = [c] := by
  unfold ofChar
  split
  · rfl
  · split
    · rfl
    · split
      · next m h => simp [text, Mark.char_of_ofChar? h]
      · rfl

@[simp] theorem flatMap_text_cons (c : Char) (segments : List Segment) :
    (cons c segments).flatMap text = c :: segments.flatMap text := by
  unfold cons
  split
  · split
    · simp [text]
    · simp
  · simp

@[simp] theorem ofText_nil : ofText [] = [] := rfl

@[simp] theorem ofText_cons (c : Char) (text : List Char) :
    ofText (c :: text) = cons c (ofText text) := rfl

/-- Put end to end, the segments of a text give it back. -/
theorem flatMap_text_ofText (source : List Char) : (ofText source).flatMap text = source := by
  induction source with
  | nil => rfl
  | cons c rest ih => simp [ih]

end Segment

end ArithAsm
