import ArithAsm.Source.Stream
import ArithAsm.Proofs.Text.Unescaped

/-!
# Numerals

Integers in decimal, read back from their text, and from the start of a longer text.
-/

namespace ArithAsm

def naturalOf? (text : List Char) : Option Nat :=
  if !text.isEmpty && text.all Char.isDigit then some (digitsValue text) else none

/-- The integer that a text denotes in decimal, after a minus sign or without one. -/
def integerOf? : List Char → Option Int
  | '-' :: run => (naturalOf? run).map fun n ↦ -(n : Int)
  | run => (naturalOf? run).map fun n ↦ (n : Int)

theorem naturalOf?_repr (n : Nat) : naturalOf? n.repr.toList = some n := by
  have hdigits : n.repr.toList.all Char.isDigit = true :=
    List.all_eq_true.mpr fun c hc ↦ isDigit_of_mem_repr hc
  have hempty : n.repr.toList.isEmpty = false := by
    rw [Nat.toList_repr, List.isEmpty_eq_false_iff]
    exact Nat.toDigits_ne_nil
  rw [naturalOf?, hdigits, hempty, Nat.toList_repr, digitsValue_toDigits]
  rfl

theorem integerOf?_toString (n : Int) : integerOf? (toString n).toList = some n := by
  cases n with
  | ofNat n =>
      change integerOf? n.repr.toList = _
      unfold integerOf?
      split
      · next run hrun =>
          have hminus : '-'.isDigit = true := isDigit_of_mem_repr (by rw [hrun]; exact .head _)
          cases hminus
      · rw [naturalOf?_repr]
        rfl
  | negSucc n =>
      change integerOf? ("-" ++ n.succ.repr).toList = _
      have hsign : "-".toList = ['-'] := by decide
      rw [String.toList_append, hsign, List.singleton_append, integerOf?, naturalOf?_repr]
      rfl

theorem repr_injective : Function.Injective Nat.repr := by
  intro n m h
  have hread : naturalOf? n.repr.toList = naturalOf? m.repr.toList := by rw [h]
  rw [naturalOf?_repr, naturalOf?_repr] at hread
  exact Option.some.inj hread

/-- Where the digits of a number stop is told by the character behind them. -/
theorem repr_append_inj {n m : Nat} {c d : Char} {rest rest' : List Char}
    (hc : c.isDigit = false) (hd : d.isDigit = false)
    (h : n.repr.toList ++ c :: rest = m.repr.toList ++ d :: rest') :
    n = m ∧ c :: rest = d :: rest' := by
  have hdigits : ∀ n : Nat, ∀ c ∈ n.repr.toList, c.isDigit = true := fun n c hc ↦
    isDigit_of_mem_repr hc
  have hrun := congrArg (List.takeWhile Char.isDigit) h
  rw [List.takeWhile_append_of_pos (hdigits n), List.takeWhile_append_of_pos (hdigits m),
    List.takeWhile_cons_of_neg (by simp [hc]), List.takeWhile_cons_of_neg (by simp [hd]),
    List.append_nil, List.append_nil] at hrun
  obtain rfl := repr_injective (String.toList_inj.mp hrun)
  exact ⟨rfl, List.append_cancel_left h⟩

end ArithAsm
