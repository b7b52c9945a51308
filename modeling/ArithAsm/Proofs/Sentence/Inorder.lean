import ArithAsm.Proofs.Sentence.Demand
import ArithAsm.Proofs.Sentence.Refusal

/-!
# Trees in the order of their tokens

The nodes of a tree that was read stand in the order of the tokens they come from.  Listed with
each sign before its operand and each operator between its sides, they are the tokens one by
one, up to parentheses and plus signs.
-/

namespace ArithAsm

/-- A node of a tree without its children. -/
inductive Node where
  | literal (value : Option Int) (place : Location)
  | negation (place : Location)
  | operation (op : Option Op) (place : Location)
  | blank (place : Location)
  | missing
deriving DecidableEq

def Expr.inorder : Expr → List Node
  | literal place value => [.literal value place]
  | negation place operand => .negation place :: operand.inorder
  | binary place op left right => left.inorder ++ .operation op place :: right.inorder
  | blank place => [.blank place]
  | missing => [.missing]

/-- The node that a token becomes.  Where an operand has to come a sign is the sign of the
operand, and elsewhere it is an operator. -/
def Token.node? (operandNext : Bool) (token : Token) : Option Node :=
  match token.word, operandNext with
  | .number value, _ => some (.literal value token.place)
  | .mark .plus _, true => none
  | .mark .minus _, true => some (.negation token.place)
  | .mark .plus _, false => some (.operation (some .add) token.place)
  | .mark .minus _, false => some (.operation (some .sub) token.place)
  | .mark .star _, _ => some (.operation (some .mul) token.place)
  | .mark .slash _, _ => some (.operation (some .div) token.place)
  | .mark .opening _, _ => none
  | .mark .closing _, _ => none
  | .finish _, _ => none

/-- The nodes that tokens become one by one.  An operand has to come after an operator, a sign or
an opening parenthesis, and it is said of the first token whether one has to come there. -/
def nodesOf : (operandNext : Bool) → List Token → List Node
  | _, [] => []
  | operandNext, token :: rest =>
      (token.node? operandNext).toList ++ nodesOf token.callsForOperand rest

theorem nodesOf_number (operandNext : Bool) (place : Location) (value : Option Int)
    (rest : List Token) : nodesOf operandNext (⟨.number value, place⟩ :: rest) =
      .literal value place :: nodesOf false rest := by
  cases operandNext <;> rfl

theorem nodesOf_sumOp (op : SumOp) (at_ : Spelled) (rest : List Token) :
    nodesOf false (at_.token op.mark :: rest) =
      .operation (some op.op) at_.place :: nodesOf true rest := by
  cases op <;> rfl

theorem nodesOf_productOp (operandNext : Bool) (op : ProductOp) (at_ : Spelled)
    (rest : List Token) : nodesOf operandNext (at_.token op.mark :: rest) =
      .operation (some op.op) at_.place :: nodesOf true rest := by
  cases op <;> cases operandNext <;> rfl

/-- A phrase is read where an operand has to come.  Its tokens become the nodes of its tree, and
no operand has to come after them. -/
theorem Phrase.nodesOf_tokens {rank : Rank} (p : Phrase rank) (rest : List Token) :
    nodesOf true (p.tokens ++ rest) = p.tree.inorder ++ nodesOf false rest := by
  induction p generalizing rest with
  | number place value => exact nodesOf_number true place value rest
  | group opening inner closing ih =>
      have hinner := ih (closing.token .closing :: rest)
      have hclosing : nodesOf false (closing.token .closing :: rest) = nodesOf false rest := rfl
      have hopening : ∀ later, nodesOf true (opening.token .opening :: later) =
          nodesOf true later := fun _ ↦ rfl
      rw [tokens, List.cons_append, hopening, List.append_assoc, List.singleton_append, hinner,
        hclosing]
      rfl
  | unsigned operand ih => exact ih rest
  | plus sign operand ih =>
      have hsign : ∀ later, nodesOf true (sign.token .plus :: later) = nodesOf true later :=
        fun _ ↦ rfl
      rw [tokens, List.cons_append, hsign, ih]
      rfl
  | minus sign operand ih =>
      have hsign : ∀ later, nodesOf true (sign.token .minus :: later) =
          .negation sign.place :: nodesOf true later := fun _ ↦ rfl
      rw [tokens, List.cons_append, hsign, ih]
      rfl
  | factor first ih => exact ih rest
  | multiply left op at_ right ihl ihr =>
      rw [tokens, List.append_assoc, List.cons_append, ihl, nodesOf_productOp, ihr, tree,
        Expr.inorder, List.append_assoc, List.cons_append]
  | term first ih => exact ih rest
  | add left op at_ right ihl ihr =>
      rw [tokens, List.append_assoc, List.cons_append, ihl, nodesOf_sumOp, ihr, tree,
        Expr.inorder, List.append_assoc, List.cons_append]

namespace Compilation

/-- Reading loses no token, takes none twice and changes no order.  The nodes of the tree, each
with its place, are those that the tokens before the end become. -/
theorem inorder_of_result_ofStream {source : String} {lines : List String} {stream : Stream}
    {tree : Expr} (h : (ofStream source lines stream).result = .ok tree) :
    ∃ (given : List Token) (finish : Token) (rest : Stream),
      stream.Hands (given ++ [finish]) rest ∧ (∀ token ∈ given, token.isFinish = false) ∧
        finish.isFinish = true ∧ tree.inorder = nodesOf true given := by
  have hread : (Unfinished.start.erase.read stream).outcome = .ok tree :=
    outcome_of_result_ofStream h
  obtain ⟨given, finish, rest, last, sentence, hhands, hrun, hstep, rfl⟩ :=
    Unfinished.exists_complete_of_read hread
  obtain ⟨hfinish, x, level, rfl, rfl⟩ := Unfinished.step_eq_complete hstep
  -- What was derived when the end came is the whole sentence.
  have htokens : (level.close x).tokens = given := by
    rw [OpenLevel.tokens_close]
    exact Unfinished.tokens_run hrun
  refine ⟨given, finish, rest, hhands, ?_, hfinish, ?_⟩
  · rw [← htokens]
    exact (level.close x).isFinish_of_mem_tokens
  · have hnodes := (level.close x).nodesOf_tokens []
    rw [List.append_nil, htokens] at hnodes
    rw [hnodes]
    exact (List.append_nil _).symm

/-- The text `-(1-+2)*3`, in which the same mark is a sign and an operator. -/
theorem inorder_of_result_ofStream_signs :
    let at_ := fun column : Int ↦ ({ line := 1, column } : Location)
    let tree : Expr := .binary (at_ 8) (some .mul)
      (.negation (at_ 1) (.binary (at_ 4) (some .sub)
        (.literal (at_ 3) (some 1)) (.literal (at_ 6) (some 2))))
      (.literal (at_ 9) (some 3))
    let stream := Stream.ofText "<input>" "-(1-+2)*3"
    (ofStream "<input>" [] stream).result = .ok tree ∧
      ∃ (given : List Token) (finish : Token) (rest : Stream),
        stream.Hands (given ++ [finish]) rest ∧ (∀ token ∈ given, token.isFinish = false) ∧
          finish.isFinish = true ∧
          [.negation (at_ 1), .literal (some 1) (at_ 3), .operation (some .sub) (at_ 4),
            .literal (some 2) (at_ 6), .operation (some .mul) (at_ 8),
            .literal (some 3) (at_ 9)] = nodesOf true given := by
  intro at_ tree stream
  have htree : (ofStream "<input>" [] stream).result = .ok tree := rfl
  exact ⟨htree, inorder_of_result_ofStream htree⟩

end Compilation

end ArithAsm
