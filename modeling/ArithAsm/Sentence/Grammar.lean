import ArithAsm.Expr.Basic
import ArithAsm.Token

/-!
# The grammar of sentences

Derivations of the language as data.  A sum is a chain of products, a product a chain of signed
operands, a signed operand an operand with at most one sign, and an operand a number or a sum in
parentheses; chains group to the left.  A derivation has a yield, the tokens it derives, and
stands for a tree.
-/

namespace ArithAsm

/-- The four kinds of phrases, from the loosest to the tightest. -/
inductive Rank where
  | sum
  | product
  | signed
  | operand
deriving DecidableEq, Inhabited

/-- A mark as it stands in a token list: its place, and its spelling if it has one. -/
structure Spelled where
  place : Location
  spelling : Option String
deriving DecidableEq, Inhabited

def Spelled.token (spelled : Spelled) (mark : Mark) : Token :=
  ⟨.mark mark spelled.spelling, spelled.place⟩

/-- The two operations that join products, and their marks. -/
inductive SumOp where
  | plus
  | minus
deriving DecidableEq, Inhabited

/-- The two operations that join signed operands, and their marks. -/
inductive ProductOp where
  | times
  | divide
deriving DecidableEq, Inhabited

namespace SumOp

def mark : SumOp → Mark
  | plus => .plus
  | minus => .minus

def op : SumOp → Op
  | plus => .add
  | minus => .sub

end SumOp

namespace ProductOp

def mark : ProductOp → Mark
  | times => .star
  | divide => .slash

def op : ProductOp → Op
  | times => .mul
  | divide => .div

end ProductOp

/-- A derivation of a phrase of a given rank. -/
inductive Phrase : Rank → Type where
  | number (place : Location) (value : Option Int) : Phrase .operand
  | group (opening : Spelled) (inner : Phrase .sum) (closing : Spelled) : Phrase .operand
  | unsigned (operand : Phrase .operand) : Phrase .signed
  | plus (sign : Spelled) (operand : Phrase .operand) : Phrase .signed
  | minus (sign : Spelled) (operand : Phrase .operand) : Phrase .signed
  | factor (first : Phrase .signed) : Phrase .product
  | multiply (left : Phrase .product) (op : ProductOp) (at_ : Spelled) (right : Phrase .signed) :
      Phrase .product
  | term (first : Phrase .product) : Phrase .sum
  | add (left : Phrase .sum) (op : SumOp) (at_ : Spelled) (right : Phrase .product) :
      Phrase .sum

namespace Phrase

def tokens {rank : Rank} : Phrase rank → List Token
  | number place value => [⟨.number value, place⟩]
  | group opening inner closing =>
      opening.token .opening :: (inner.tokens ++ [closing.token .closing])
  | unsigned operand => operand.tokens
  | plus sign operand => sign.token .plus :: operand.tokens
  | minus sign operand => sign.token .minus :: operand.tokens
  | factor first => first.tokens
  | multiply left op spelled right => left.tokens ++ spelled.token op.mark :: right.tokens
  | term first => first.tokens
  | add left op spelled right => left.tokens ++ spelled.token op.mark :: right.tokens

/-- The tree that a derivation stands for.  Parentheses and plus signs add no node. -/
def tree {rank : Rank} : Phrase rank → Expr
  | number place value => .literal place value
  | group _ inner _ => inner.tree
  | unsigned operand => operand.tree
  | plus _ operand => operand.tree
  | minus sign operand => .negation sign.place operand.tree
  | factor first => first.tree
  | multiply left op spelled right => .binary spelled.place (some op.op) left.tree right.tree
  | term first => first.tree
  | add left op spelled right => .binary spelled.place (some op.op) left.tree right.tree

/-- The greatest number of parentheses that are open at once. -/
def nesting {rank : Rank} : Phrase rank → Nat
  | number .. => 0
  | group _ inner _ => inner.nesting + 1
  | unsigned operand => operand.nesting
  | plus _ operand => operand.nesting
  | minus _ operand => operand.nesting
  | factor first => first.nesting
  | multiply left _ _ right => max left.nesting right.nesting
  | term first => first.nesting
  | add left _ _ right => max left.nesting right.nesting

end Phrase

end ArithAsm
