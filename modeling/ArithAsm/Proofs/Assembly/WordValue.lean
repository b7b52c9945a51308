import ArithAsm.Assembly.Code
import ArithAsm.Assembly.Machine
import ArithAsm.Expr.Exact

/-!
# Values in machine words

What a tree is worth on the machine: sums, differences and products modulo `2 ^ 64`, and
quotients of signed words without their fraction.  There is no value where a division traps.
This is so for a zero divisor, and for the one quotient of signed words that is none itself.
-/

namespace ArithAsm

/-- A binary operation on words, without a result where the machine traps. -/
def Op.onWords : Op → Word64 → Word64 → Option Word64
  | add, l, r => some (l + r)
  | sub, l, r => some (l - r)
  | mul, l, r => some (l * r)
  | div, l, r =>
      if r = 0 ∨ (l = .intMin 64 ∧ r = -1) then none
      else some (.ofInt 64 (l.toInt.tdiv r.toInt))

theorem isShort_of_isWord {n : Int} (h : IsWord n) : IsShort n := by
  obtain ⟨hlow, hhigh⟩ := h
  exact isShort_of_natAbs_lt (by omega)

namespace Expr

/-- The word that a tree is worth, unless a division in it traps. -/
def machineValue : Expr → Option Word64
  | .literal _ (some n) => some (.ofInt 64 n)
  | .negation _ operand => operand.machineValue.map (-·)
  | .binary _ (some op) left right =>
      left.machineValue.bind fun l ↦ right.machineValue.bind fun r ↦ op.onWords l r
  | _ => none

/-- The sub-trees in post-order: those of the children from left to right, then the node. -/
def postorder : Expr → List Expr
  | e@(.negation _ operand) => operand.postorder ++ [e]
  | e@(.binary _ _ left right) => left.postorder ++ right.postorder ++ [e]
  | e => [e]

/-- The code of the root, which expects the values of its children on the stack. -/
def ownCode : Expr → List Instruction
  | .literal _ (some n) => numberCode n
  | .negation .. => negationCode
  | .binary _ (some op) .. => operationCode op
  | _ => []

def WordLiterals : Expr → Prop
  | .literal _ (some n) => IsWord n
  | .negation _ operand => operand.WordLiterals
  | .binary _ _ left right => left.WordLiterals ∧ right.WordLiterals
  | _ => True

theorem WordLiterals.short {e : Expr} (h : e.WordLiterals) : e.Short := by
  induction e with
  | literal place value =>
      rintro n ⟨⟩
      exact isShort_of_isWord h
  | negation place operand ih => exact ih h
  | binary place op left right ihl ihr => exact ⟨ihl h.1, ihr h.2⟩
  | blank place => trivial
  | missing => trivial

/-- The code of a tree is that of its nodes in post-order. -/
theorem code_eq_flatMap {e : Expr} (he : e.Complete) : e.code = e.postorder.flatMap ownCode := by
  induction e with
  | literal place value =>
      obtain ⟨n, rfl⟩ := Option.isSome_iff_exists.mp he
      simp [code, postorder, ownCode]
  | negation place operand ih => simp [code, postorder, ownCode, ih he]
  | binary place op left right ihl ihr =>
      obtain ⟨hop, hl, hr⟩ := he
      obtain ⟨op, rfl⟩ := Option.isSome_iff_exists.mp hop
      simp [code, postorder, ownCode, ihl hl, ihr hr]
  | blank place => exact he.elim
  | missing => exact he.elim

theorem machineValue_binary_eq_some {place : Location} {op : Op} {left right : Expr}
    {w : Word64} (h : (binary place (some op) left right).machineValue = some w) :
    ∃ l r, left.machineValue = some l ∧ right.machineValue = some r ∧ op.onWords l r = some w := by
  obtain ⟨l, hl, h⟩ := Option.bind_eq_some_iff.mp h
  obtain ⟨r, hr, h⟩ := Option.bind_eq_some_iff.mp h
  exact ⟨l, r, hl, hr, h⟩

theorem machineValue_of_mem_postorder {e : Expr} {w : Word64} (h : e.machineValue = some w) :
    ∀ part ∈ e.postorder, part.machineValue ≠ none := by
  induction e generalizing w with
  | literal place value => exact List.forall_mem_singleton.mpr (by simp [h])
  | negation place operand ih =>
      obtain ⟨v, hv, -⟩ := Option.map_eq_some_iff.mp h
      exact List.forall_mem_append.mpr ⟨ih hv, List.forall_mem_singleton.mpr (by simp [h])⟩
  | binary place op left right ihl ihr =>
      cases op with
      | none => cases h
      | some op =>
          obtain ⟨l, r, hl, hr, -⟩ := machineValue_binary_eq_some h
          exact List.forall_mem_append.mpr ⟨List.forall_mem_append.mpr ⟨ihl hl, ihr hr⟩,
            List.forall_mem_singleton.mpr (by simp [h])⟩
  | blank place => cases h
  | missing => cases h

end Expr

/-! ## Division of signed words -/

theorem toInt_append_sign (w : Word64) :
    ((if w.msb then BitVec.allOnes 64 else 0) ++ w).toInt = w.toInt := by
  have h : (w.signExtend 128).toInt = w.toInt := BitVec.toInt_signExtend_of_le (by decide)
  rw [BitVec.signExtend_eq_append_of_le (by decide)] at h
  exact h

theorem isWord_toInt (w : Word64) : IsWord w.toInt :=
  ⟨w.le_toInt, BitVec.toInt_lt⟩

theorem fitsWord_iff {n : Int} : fitsWord n = true ↔ IsWord n := by
  simp [fitsWord, IsWord]

/-- A quotient of signed words is a signed word but in one case. -/
theorem isWord_tdiv_iff {l r : Word64} (hr : r ≠ 0) :
    IsWord (l.toInt.tdiv r.toInt) ↔ ¬ (l = .intMin 64 ∧ r = -1) := by
  have hl : l = .intMin 64 ↔ l.toInt = -9223372036854775808 := by
    rw [← BitVec.toInt_inj]
    rfl
  have hminus : r = -1 ↔ r.toInt = -1 := by
    rw [← BitVec.toInt_inj]
    rfl
  have hzero : r.toInt ≠ 0 := fun h ↦ hr (BitVec.toInt_inj.mp h)
  obtain ⟨hlow, hhigh⟩ := isWord_toInt l
  rw [IsWord, hl, hminus]
  generalize l.toInt = a at *
  generalize r.toInt = b at *
  by_cases hone : b = 1
  · rw [hone, Int.tdiv_one]
    omega
  by_cases hneg : b = -1
  · rw [hneg, Int.tdiv_neg, Int.tdiv_one]
    omega
  have habs : (a.tdiv b).natAbs = a.natAbs / b.natAbs := Int.natAbs_tdiv a b
  have hhalf : a.natAbs / b.natAbs ≤ a.natAbs / 2 := Nat.div_le_div_left (by omega) (by decide)
  omega

theorem Op.onWords_div_eq_none_iff {l r : Word64} :
    Op.div.onWords l r = none ↔ r = 0 ∨ (l = .intMin 64 ∧ r = -1) := by
  by_cases h : r = 0 ∨ (l = .intMin 64 ∧ r = -1)
  · exact iff_of_true (if_pos h) h
  · refine iff_of_false ?_ h
    rw [Op.onWords, if_neg h]
    exact Option.some_ne_none _

namespace Machine

variable {m : Machine}

/-- Division after the sign of `rax` was extended into `rdx`. -/
theorem divide_of_some {w : Word64}
    (hsign : m.registers .rdx = if (m.registers .rax).msb then .allOnes 64 else 0)
    (h : Op.div.onWords (m.registers .rax) (m.registers .rdi) = some w) :
    m.divide = .running ((m.set .rax w).set .rdx
      (.ofInt 64 ((m.registers .rax).toInt.tmod (m.registers .rdi).toInt))) := by
  rw [Op.onWords] at h
  split at h
  · cases h
  · next hmeaning =>
      obtain ⟨hzero, hleast⟩ := not_or.mp hmeaning
      have hne : (m.registers .rdi).toInt ≠ 0 := fun heq ↦ hzero (BitVec.toInt_inj.mp heq)
      have hfits : fitsWord ((m.registers .rax).toInt.tdiv (m.registers .rdi).toInt) = true :=
        fitsWord_iff.mpr ((isWord_tdiv_iff hzero).mpr hleast)
      obtain rfl := Option.some.inj h
      unfold divide
      simp only [hsign, toInt_append_sign]
      rw [if_neg hne, if_pos hfits]

theorem divide_of_none
    (hsign : m.registers .rdx = if (m.registers .rax).msb then .allOnes 64 else 0)
    (h : Op.div.onWords (m.registers .rax) (m.registers .rdi) = none) :
    m.divide = .trapped := by
  unfold divide
  simp only [hsign, toInt_append_sign]
  by_cases hzero : m.registers .rdi = 0
  · have heq : (m.registers .rdi).toInt = 0 := BitVec.toInt_inj.mpr hzero
    rw [if_pos heq]
  · have hne : (m.registers .rdi).toInt ≠ 0 := fun heq ↦ hzero (BitVec.toInt_inj.mp heq)
    have hleast := (Op.onWords_div_eq_none_iff.mp h).resolve_left hzero
    have hfits : ¬ fitsWord ((m.registers .rax).toInt.tdiv (m.registers .rdi).toInt) = true :=
      fun hword ↦ (isWord_tdiv_iff hzero).mp (fitsWord_iff.mp hword) hleast
    rw [if_neg hne, if_neg hfits]

end Machine

end ArithAsm
