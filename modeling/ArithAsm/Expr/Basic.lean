import ArithAsm.Decimal.Integer
import ArithAsm.Location

/-!
# Expression trees

Integer arithmetic over literals, negation and the four binary operations.  A tree is
written by its reader node by node; trees made by hand may also have gaps: a literal
without a value, an operation without an operator, a blank node, or nothing at all.
-/

namespace ArithAsm

/-- The four binary operations. -/
inductive Op where
  | add
  | sub
  | mul
  | div
deriving DecidableEq, Inhabited

namespace Op

/-- Every operation, in the order of their declaration. -/
def all : List Op := [add, sub, mul, div]

theorem mem_all_ops (op : Op) : op ∈ all := by
  cases op <;> simp [all]

/-- The name under which the operation is listed. -/
def name : Op → String
  | add => "ADD"
  | sub => "SUB"
  | mul => "MUL"
  | div => "DIV"

def char : Op → Char
  | add => '+'
  | sub => '-'
  | mul => '*'
  | div => '/'

end Op

/-- An expression tree.  Each node but `missing` has a place: a literal that of its digits,
the other nodes that of their operator. -/
inductive Expr where
  | literal (place : Location) (value : Option Int)
  | negation (place : Location) (operand : Expr)
  | binary (place : Location) (op : Option Op) (left right : Expr)
  | blank (place : Location)
  | missing
deriving DecidableEq, Inhabited

/-- The classes of nodes. -/
inductive NodeClass where
  | literal
  | negation
  | binary
  | blank
  | missing
deriving DecidableEq, Inhabited

/-- The name under which nodes of a class are listed. -/
def NodeClass.name : NodeClass → String
  | literal => "Literal"
  | negation => "UnaryMinus"
  | binary => "BinaryOp"
  | blank => "Expression"
  | missing => "NoneType"

/-- Why something has no text. -/
inductive TextFault where
  /-- An operation lacks its operator. -/
  | noOperator
  /-- An integer has too many digits. -/
  | tooLong
deriving DecidableEq, Inhabited

namespace Expr

def nodeClass : Expr → NodeClass
  | literal .. => .literal
  | negation .. => .negation
  | binary .. => .binary
  | blank _ => .blank
  | missing => .missing

def place? : Expr → Option Location
  | literal place _ => some place
  | negation place _ => some place
  | binary place .. => some place
  | blank place => some place
  | missing => none

def children : Expr → List Expr
  | negation _ operand => [operand]
  | binary _ _ left right => [left, right]
  | _ => []

def absentText : String := "None"

/-- The label of the root: its class, with the value of a literal or the name of an
operation.  An operation without an operator has no label, nor has a literal of too many digits. -/
def label? : Expr → Option String
  | literal _ none => some s!"Literal({absentText})"
  | literal _ (some value) => (Constant.of? value).map fun c => s!"Literal({c.text})"
  | binary _ op .. => op.map fun op => s!"BinaryOp({op.name})"
  | e => some e.nodeClass.name

/-- Why the root has no label, if it has none. -/
def textFault : Expr → TextFault
  | literal .. => .tooLong
  | _ => .noOperator

/-- The sub-trees in pre-order: a node, then those of its children from left to right. -/
def nodes : Expr → List Expr
  | e@(negation _ operand) => e :: operand.nodes
  | e@(binary _ _ left right) => e :: (left.nodes ++ right.nodes)
  | e => [e]

/-- The sub-trees whose class is in `chosen` and that lie in no larger such sub-tree, from
left to right. -/
def topmost (chosen : NodeClass → Bool) : Expr → List Expr
  | e@(negation _ operand) =>
      if chosen e.nodeClass then [e] else operand.topmost chosen
  | e@(binary _ _ left right) =>
      if chosen e.nodeClass then [e] else left.topmost chosen ++ right.topmost chosen
  | e => if chosen e.nodeClass then [e] else []

/-- No gaps: every literal has a value, every operation an operator, and no node is blank or
missing. -/
def Complete : Expr → Prop
  | literal _ value => value.isSome
  | negation _ operand => operand.Complete
  | binary _ op left right => op.isSome ∧ left.Complete ∧ right.Complete
  | blank _ => False
  | missing => False

/-- Every operation has an operator. -/
def Operated : Expr → Prop
  | negation _ operand => operand.Operated
  | binary _ op left right => op.isSome ∧ left.Operated ∧ right.Operated
  | _ => True

/-- Every number is short enough to be written. -/
def Short : Expr → Prop
  | literal _ value => ∀ n ∈ value, IsShort n
  | negation _ operand => operand.Short
  | binary _ _ left right => left.Short ∧ right.Short
  | _ => True

instance decidableShort : (e : Expr) → Decidable e.Short
  | literal _ none => isTrue nofun
  | literal _ (some n) => decidable_of_iff (IsShort n) (by simp [Short])
  | negation _ operand => decidableShort operand
  | binary _ _ left right =>
      have := decidableShort left
      have := decidableShort right
      inferInstanceAs (Decidable (left.Short ∧ right.Short))
  | blank _ => isTrue trivial
  | missing => isTrue trivial

theorem Complete.operated {e : Expr} (h : e.Complete) : e.Operated := by
  induction e with
  | literal place value => trivial
  | negation place operand ih => exact ih h
  | binary place op left right ihl ihr => exact ⟨h.1, ihl h.2.1, ihr h.2.2⟩
  | blank place => trivial
  | missing => trivial

@[simp] theorem label?_literal_value (place : Location) (c : Constant) :
    (literal place (some c.value)).label? = some s!"Literal({c.text})" := by
  simp [label?]

theorem exists_label? {e : Expr} (hop : e.Operated) (hshort : e.Short) :
    ∃ label, e.label? = some label := by
  cases e with
  | literal place value =>
      cases value with
      | none => exact ⟨_, rfl⟩
      | some n => exact ⟨_, label?_literal_value place ⟨n, hshort n rfl⟩⟩
  | negation place operand => exact ⟨_, rfl⟩
  | binary place op left right =>
      obtain ⟨op, rfl⟩ := Option.isSome_iff_exists.mp hop.1
      exact ⟨_, rfl⟩
  | blank place => exact ⟨_, rfl⟩
  | missing => exact ⟨_, rfl⟩

end Expr

end ArithAsm
