import ArithAsm.Proofs.Assembly.StackProgram
import ArithAsm.Proofs.Compilation.Accepted
import ArithAsm.Proofs.Source.Nesting

/-!
# How deep the stack gets

The left operand of an operation needs the stack for itself, the right one needs it while the value
of the left one lies there.  A chain groups to the left, so its length costs nothing: what is left
of it is one value by the time the next operand comes.  Only parentheses can put a chain on the
right of an operation, and each pair of them costs two more values.
-/

namespace ArithAsm

/-- Nowhere along the code does the depth, counted from its start, rise above a bound. -/
def StaysBelow (high : Int) (code : List Instruction) : Prop :=
  ∀ n, depthOf (code.take n) ≤ high

namespace StaysBelow

variable {high : Int}

theorem nil_iff : StaysBelow high [] ↔ 0 ≤ high := by
  simp [StaysBelow]

theorem cons_iff {i : Instruction} {code : List Instruction} :
    StaysBelow high (i :: code) ↔ 0 ≤ high ∧ StaysBelow (high - i.depthChange) code := by
  have hrest : (∀ n, i.depthChange + depthOf (code.take n) ≤ high) ↔
      StaysBelow (high - i.depthChange) code :=
    forall_congr' fun n ↦ ⟨Int.le_sub_left_of_add_le, Int.add_le_of_le_sub_left⟩
  rw [← hrest]
  exact forall_depthOf_take_cons (P := (· ≤ high))

theorem append {first second : List Instruction} (hf : StaysBelow high first)
    (hs : StaysBelow (high - depthOf first) second) : StaysBelow high (first ++ second) :=
  forall_depthOf_take_append (P := (· ≤ high)) hf fun n ↦ Int.add_le_of_le_sub_left (hs n)

theorem mono {low : Int} {code : List Instruction} (h : StaysBelow low code) (hle : low ≤ high) :
    StaysBelow high code :=
  fun n ↦ Int.le_trans (h n) hle

end StaysBelow

/-! ## Trees -/

namespace Expr

/-- How many values the code of a tree has on the stack at most. -/
def stackNeed : Expr → Nat
  | .negation _ operand => operand.stackNeed
  | .binary _ _ left right => max left.stackNeed (right.stackNeed + 1)
  | _ => 1

theorem stackNeed_pos (e : Expr) : 0 < e.stackNeed := by
  induction e with
  | negation place operand ih => exact ih
  | binary place op left right ihl ihr => exact Nat.lt_of_lt_of_le ihl (Nat.le_max_left _ _)
  | _ => exact Nat.one_pos

variable {e : Expr}

theorem staysBelow_code (he : e.Complete) (hshort : e.Short) :
    StaysBelow e.stackNeed e.code := by
  induction e with
  | literal place value =>
      obtain ⟨n, rfl⟩ := Option.isSome_iff_exists.mp he
      rw [code, numberCode_of_short (hshort n rfl), literalCode]
      split <;>
        simp [stackNeed, StaysBelow.cons_iff, StaysBelow.nil_iff, Instruction.depthChange]
  | negation place operand ih =>
      have he : operand.Complete := he
      have hshort : operand.Short := hshort
      have hown : StaysBelow 0 negationCode := by
        simp [negationCode, StaysBelow.cons_iff, StaysBelow.nil_iff, Instruction.depthChange]
      have hpos : 0 < operand.stackNeed := operand.stackNeed_pos
      refine (ih he hshort).append (hown.mono ?_)
      rw [(depth_code he hshort).1]
      omega
  | binary place op left right ihl ihr =>
      obtain ⟨hop, hl, hr⟩ := he
      obtain ⟨op, rfl⟩ := Option.isSome_iff_exists.mp hop
      have hown : StaysBelow 0 (operationCode op) := by
        cases op <;>
          simp [operationCode, Op.instructions, StaysBelow.cons_iff, StaysBelow.nil_iff,
            Instruction.depthChange]
      have hleft : left.stackNeed ≤ max left.stackNeed (right.stackNeed + 1) := Nat.le_max_left _ _
      have hright : right.stackNeed + 1 ≤ max left.stackNeed (right.stackNeed + 1) :=
        Nat.le_max_right _ _
      have hpos : 0 < right.stackNeed := right.stackNeed_pos
      rw [stackNeed]
      -- The right operand starts above the value of the left one, the operation above both.
      refine (((ihl hl hshort.1).mono ?_).append
        ((ihr hr hshort.2).mono ?_)).append (hown.mono ?_)
      · omega
      · rw [(depth_code hl hshort.1).1]
        omega
      · rw [depthOf_append, (depth_code hl hshort.1).1, (depth_code hr hshort.2).1]
        omega
  | blank place => exact he.elim
  | missing => exact he.elim

theorem staysBelow_programCode (he : e.Complete) (hshort : e.Short) :
    StaysBelow e.stackNeed e.programCode := by
  have hpos : 0 < e.stackNeed := e.stackNeed_pos
  refine (staysBelow_code he hshort).append ?_
  rw [(depth_code he hshort).1]
  simp only [StaysBelow.cons_iff, StaysBelow.nil_iff, Instruction.depthChange]
  omega

end Expr

/-! ## Phrases -/

/-- The values that a phrase of a rank needs at most beside two for each parenthesis open at
once. -/
def Rank.ownNeed : Rank → Nat
  | sum => 3
  | product => 2
  | signed => 1
  | operand => 1

theorem Phrase.stackNeed_tree_le {rank : Rank} (p : Phrase rank) :
    p.tree.stackNeed ≤ 2 * p.nesting + rank.ownNeed := by
  induction p with
  | number place value => exact Nat.le_refl 1
  | group opening inner closing ih =>
      simp only [tree, nesting, Rank.ownNeed] at ih ⊢
      omega
  | unsigned operand ih => exact ih
  | plus sign operand ih => exact ih
  | minus sign operand ih => exact ih
  | factor first ih => exact Nat.le_succ_of_le ih
  | multiply left op at_ right ihl ihr =>
      simp only [tree, nesting, Expr.stackNeed, Rank.ownNeed] at ihl ihr ⊢
      omega
  | term first ih => exact Nat.le_succ_of_le ih
  | add left op at_ right ihl ihr =>
      simp only [tree, nesting, Expr.stackNeed, Rank.ownNeed] at ihl ihr ⊢
      omega

/-! ## Compiled texts -/

namespace Compilation

variable {options : CompilerOptions} {source text : String} {compiled : Compiled}

theorem stackNeed_tree_le (h : (compile options source text).result = .ok compiled) :
    compiled.tree.stackNeed ≤ 2 * Text.nesting text.toList + 3 := by
  obtain ⟨htokens, ⟨p, token, after, hfound, -, htree⟩, -⟩ := compile_eq_ok h
  rw [hfound] at htokens
  have hnesting : p.nesting ≤ Text.nesting text.toList := Phrase.nesting_le_of_tokens htokens
  calc compiled.tree.stackNeed
    _ = p.tree.stackNeed := by rw [htree]
    _ ≤ 2 * p.nesting + 3 := p.stackNeed_tree_le
    _ ≤ 2 * Text.nesting text.toList + 3 := by omega

/-- However long a text is, at every moment of its program the pushes less the pops are at most
three more than twice the nesting of its parentheses. -/
theorem depthOf_take_le_nesting (h : (compile options source text).result = .ok compiled)
    (n : Nat) :
    0 ≤ depthOf ((instructionsOf compiled.lines).take n) ∧
      depthOf ((instructionsOf compiled.lines).take n) ≤ 2 * Text.nesting text.toList + 3 := by
  obtain ⟨he, hliterals⟩ := complete_tree_of_compile h
  have hneed := stackNeed_tree_le h
  have hbelow := Expr.staysBelow_programCode he hliterals.short n
  rw [lines_of_compile h, Expr.instructionsOf_programLines]
  exact ⟨Expr.depth_programCode he hliterals.short n, by omega⟩

/-- Two parentheses are open at once in this text, and the bound of seven is reached after the
seven literals. -/
theorem depthOf_take_le_nesting_reached :
    ∃ compiled, (compile {} "<input>" "1+2*(3+4*(5-6/7))").result = .ok compiled ∧
      2 * Text.nesting "1+2*(3+4*(5-6/7))".toList + 3 = 7 ∧
      depthOf ((instructionsOf compiled.lines).take 7) = 7 ∧
      0 ≤ depthOf ((instructionsOf compiled.lines).take 7) ∧
      depthOf ((instructionsOf compiled.lines).take 7) ≤
        2 * Text.nesting "1+2*(3+4*(5-6/7))".toList + 3 := by
  have hseven : (compile {} "<input>" "1+2*(3+4*(5-6/7))").result.toOption.map
      (fun compiled ↦ depthOf ((instructionsOf compiled.lines).take 7)) = some 7 := by
    decide +kernel
  obtain ⟨compiled, h, hdepth⟩ := exists_ok_of_map_toOption hseven
  have hnesting : 2 * Text.nesting "1+2*(3+4*(5-6/7))".toList + 3 = 7 := by decide +kernel
  exact ⟨compiled, h, hnesting, hdepth, depthOf_take_le_nesting h 7⟩

end Compilation

end ArithAsm
