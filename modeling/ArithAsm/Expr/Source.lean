import ArithAsm.Expr.Basic
import ArithAsm.Sentence.Grammar

/-!
# Source text of a tree

The text from which a tree can be read back, with no more parentheses than the grammar needs: a
sub-tree is put in parentheses where its own rank is looser than the one its position asks for.
-/

namespace ArithAsm

def Rank.tightness : Rank → Nat
  | sum => 0
  | product => 1
  | signed => 2
  | operand => 3

/-- The tightest rank at which a tree can be written without parentheses. -/
def Expr.rank : Expr → Rank
  | .binary _ (some .add) .. => .sum
  | .binary _ (some .sub) .. => .sum
  | .binary .. => .product
  | .negation .. => .signed
  | _ => .operand

def parenthesised (text : List Char) : List Char :=
  '(' :: (text ++ [')'])

/-- The text of a tree at its own rank, with the given texts for its parts in their positions.  A
tree with gaps has no text of its own. -/
def Expr.source : Expr → List Char
  | .literal _ (some n) => (toString n).toList
  | .negation _ operand =>
      '-' :: (if operand.rank.tightness < Rank.operand.tightness
        then parenthesised operand.source else operand.source)
  | .binary place (some op) left right =>
      let own := (Expr.binary place (some op) left right).rank
      let next := if own = .sum then Rank.product else .signed
      (if left.rank.tightness < own.tightness then parenthesised left.source else left.source)
        ++ op.char ::
        (if right.rank.tightness < next.tightness then parenthesised right.source
          else right.source)
  | _ => []

/-- The text of a tree where a phrase of the given rank is asked for. -/
def Expr.sourceAt (rank : Rank) (e : Expr) : List Char :=
  if e.rank.tightness < rank.tightness then parenthesised e.source else e.source

/-! ## The levels of the grammar

At its own rank a tree is written by its parts.  At any other rank it is written as at the next
tighter one, and what is no operand is put in parentheses where an operand is asked for. -/

namespace Expr

theorem sourceAt_sum_binary (place : Location) (op : SumOp) (left right : Expr) :
    (binary place (some op.op) left right).sourceAt .sum =
      left.sourceAt .sum ++ op.op.char :: right.sourceAt .product := by
  cases op <;> rfl

theorem sourceAt_product_binary (place : Location) (op : ProductOp) (left right : Expr) :
    (binary place (some op.op) left right).sourceAt .product =
      left.sourceAt .product ++ op.op.char :: right.sourceAt .signed := by
  cases op <;> rfl

theorem sourceAt_signed_negation (place : Location) (operand : Expr) :
    (negation place operand).sourceAt .signed = '-' :: operand.sourceAt .operand := rfl

theorem sourceAt_operand_literal (place : Location) (n : Int) :
    (literal place (some n)).sourceAt .operand = (toString n).toList := rfl

variable {e : Expr}

theorem sourceAt_sum_of_ne (h : e.rank ≠ .sum) : e.sourceAt .sum = e.sourceAt .product := by
  cases hrank : e.rank <;> simp_all [sourceAt, Rank.tightness]

theorem sourceAt_product_of_ne (h : e.rank ≠ .product) :
    e.sourceAt .product = e.sourceAt .signed := by
  cases hrank : e.rank <;> simp_all [sourceAt, Rank.tightness]

theorem sourceAt_signed_of_ne (h : e.rank ≠ .signed) :
    e.sourceAt .signed = e.sourceAt .operand := by
  cases hrank : e.rank <;> simp_all [sourceAt, Rank.tightness]

theorem sourceAt_operand_of_ne (h : e.rank ≠ .operand) :
    e.sourceAt .operand = parenthesised (e.sourceAt .sum) := by
  cases hrank : e.rank <;> simp_all [sourceAt, Rank.tightness]

end Expr

end ArithAsm
