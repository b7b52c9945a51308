import ArithAsm.Decimal.Integer
import ArithAsm.Location

/-!
# Tokens

The words of the expression language: numbers, six one-character marks, and the
end of the input.  A token is such a word at a place.
-/

namespace ArithAsm

/-- The one-character words. -/
inductive Mark where
  | plus
  | minus
  | star
  | slash
  | opening
  | closing
deriving DecidableEq, Inhabited

namespace Mark

/-- Every mark, in the order of their declaration. -/
def all : List Mark := [plus, minus, star, slash, opening, closing]

theorem mem_all (mark : Mark) : mark ∈ all := by
  cases mark <;> simp [all]

def char : Mark → Char
  | plus => '+'
  | minus => '-'
  | star => '*'
  | slash => '/'
  | opening => '('
  | closing => ')'

def ofChar? : Char → Option Mark
  | '+' => some plus
  | '-' => some minus
  | '*' => some star
  | '/' => some slash
  | '(' => some opening
  | ')' => some closing
  | _ => none

@[simp] theorem ofChar?_char (mark : Mark) : ofChar? mark.char = some mark := by
  cases mark <;> rfl

theorem char_of_ofChar? {c : Char} {mark : Mark} (h : ofChar? c = some mark) : mark.char = c := by
  unfold ofChar? at h
  split at h
  all_goals first
    | obtain rfl := Option.some.inj h; rfl
    | exact absurd h (by simp)

/-- The name under which tokens of this mark are listed. -/
def name : Mark → String
  | plus => "PLUS"
  | minus => "MINUS"
  | star => "STAR"
  | slash => "SLASH"
  | opening => "LPAREN"
  | closing => "RPAREN"

end Mark

/-- What a token says, without its place.  A number read from text has a value and a mark
its spelling; tokens made by hand may lack either. -/
inductive Word where
  | number (value : Option Int)
  | mark (mark : Mark) (spelling : Option String)
  | finish (spelling : Option String)
deriving DecidableEq, Inhabited

/-- A word at its place in the source. -/
structure Token where
  word : Word
  place : Location
deriving DecidableEq, Inhabited

namespace Token

def className (token : Token) : String :=
  match token.word with
  | .number _ => "NUMBER"
  | .mark mark _ => mark.name
  | .finish _ => "EOF"

def absent : String := "None"

/-- How diagnostics speak of the token: by what stands in the source.  There are no words for a
number of too many digits. -/
def describe? (token : Token) : Option String :=
  match token.word with
  | .number none => some absent
  | .number (some value) => (Constant.of? value).map Constant.text
  | .mark _ spelling => some (spelling.getD absent)
  | .finish _ => some "end of input"

theorem describe?_constant (place : Location) (c : Constant) :
    describe? ⟨.number (some c.value), place⟩ = some c.text := by
  simp [describe?]

/-- The listing of a token: its class, the value of a number, and where on its line it
starts. -/
def display (token : Token) : String :=
  let value := match token.word with
    | .number (some value) => s!"{value}, "
    | _ => ""
  s!"Token({token.className}, {value}{token.place.line}:{token.place.column})"

end Token

end ArithAsm
