import ArithAsm.Expr.Basic
import ArithAsm.Token

/-!
# Reading a sentence token by token

The language: sums of products of signed operands, where an operand is a number or a
parenthesised sum and carries at most one sign.  Operations of one level group to the left.

A sentence is read without looking ahead.  Between two tokens everything read so far is a
`Pending` state: the operations that wait for their right side, level by level, and whether
an operand or an operator must come next.  A token that no sentence can have at that point is
refused at once.
-/

namespace ArithAsm

/-- An operation whose right side is still to be read. -/
structure Waiting where
  left : Expr
  op : Op
  place : Location
deriving DecidableEq

/-- The sum and the product that wait for the operand at hand, inside the same parentheses. -/
structure Level where
  sum : Option Waiting := none
  product : Option Waiting := none
deriving DecidableEq

/-- The sign of an operand still to be read. -/
inductive Sign where
  | plus
  | minus (place : Location)
deriving DecidableEq

/-- An open parenthesis, with the sign before it and the level around it. -/
structure Group where
  opening : Location
  sign : Option Sign
  around : Level
deriving DecidableEq

/-- What has been read of a sentence: the level at hand, the open parentheses from the
innermost to the outermost, and either a sign or a whole operand. -/
inductive Pending where
  | operand (sign : Option Sign) (level : Level) (groups : List Group)
  | operator (operand : Expr) (level : Level) (groups : List Group)
deriving DecidableEq

/-- What would have allowed a sentence to go on, where a token did not. -/
inductive Expected where
  /-- An operand. -/
  | operand
  /-- An operator or the parenthesis that closes the one opened here. -/
  | closing (opening : Location)
  /-- An operator or the end. -/
  | finish
deriving DecidableEq, Inhabited

/-- What a token does to a sentence. -/
inductive Step where
  | go (next : Pending)
  | complete (tree : Expr)
  | refuse (expected : Expected)
deriving DecidableEq

def Waiting.close (waiting : Option Waiting) (right : Expr) : Expr :=
  match waiting with
  | some w => .binary w.place (some w.op) w.left right
  | none => right

/-- Ends the sum at hand with its last operand. -/
def Level.close (level : Level) (operand : Expr) : Expr :=
  Waiting.close level.sum (Waiting.close level.product operand)

def Sign.apply (sign : Option Sign) (operand : Expr) : Expr :=
  match sign with
  | some (.minus place) => .negation place operand
  | _ => operand

namespace Pending

def start : Pending :=
  .operand none {} []

/-- What is missing where an operand is complete and neither an operator nor a closing follows. -/
def expectedAfter : List Group → Expected
  | [] => .finish
  | group :: _ => .closing group.opening

/-- An operator of the lower level, which ends the sum so far. -/
def extendSum (operand : Expr) (level : Level) (groups : List Group) (op : Op)
    (place : Location) : Step :=
  .go (.operand none { sum := some ⟨level.close operand, op, place⟩ } groups)

/-- An operator of the higher level, which ends the product so far. -/
def extendProduct (operand : Expr) (level : Level) (groups : List Group) (op : Op)
    (place : Location) : Step :=
  .go (.operand none
    { level with product := some ⟨Waiting.close level.product operand, op, place⟩ } groups)

def step : Pending → Token → Step
  | operand sign level groups, token =>
      match token.word, sign with
      | .number value, _ =>
          .go (operator (Sign.apply sign (.literal token.place value)) level groups)
      | .mark .opening _, _ => .go (operand none {} (⟨token.place, sign, level⟩ :: groups))
      | .mark .plus _, none => .go (operand (some .plus) level groups)
      | .mark .minus _, none => .go (operand (some (.minus token.place)) level groups)
      | _, _ => .refuse .operand
  | operator value level groups, token =>
      match token.word, groups with
      | .mark .plus _, _ => extendSum value level groups .add token.place
      | .mark .minus _, _ => extendSum value level groups .sub token.place
      | .mark .star _, _ => extendProduct value level groups .mul token.place
      | .mark .slash _, _ => extendProduct value level groups .div token.place
      | .mark .closing _, group :: outer =>
          .go (operator (Sign.apply group.sign (level.close value)) group.around outer)
      | .finish _, [] => .complete (level.close value)
      | _, _ => .refuse (expectedAfter groups)

end Pending

end ArithAsm
