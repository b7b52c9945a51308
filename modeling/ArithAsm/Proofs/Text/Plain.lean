import ArithAsm.Proofs.Text.Lines
import ArithAsm.Proofs.Text.Unescaped

/-!
# Plain texts

Numerals, and the words that programs and drawings are made of, consist of printable characters of
ASCII.  So they hold neither escapes nor line ends.
-/

namespace ArithAsm.Text

def IsPlain (text : String) : Prop :=
  text.toList.all (fun c ↦ 0x20 ≤ c.toNat && c.toNat < 0x7f) = true

instance (text : String) : Decidable (IsPlain text) :=
  inferInstanceAs (Decidable (_ = _))

theorem isPlain_iff {text : String} :
    IsPlain text ↔ ∀ c ∈ text.toList, 0x20 ≤ c.toNat ∧ c.toNat < 0x7f := by
  simp [IsPlain]

theorem IsPlain.append {first second : String} (hf : IsPlain first) (hs : IsPlain second) :
    IsPlain (first ++ second) := by
  rw [isPlain_iff, String.toList_append]
  exact List.forall_mem_append.mpr ⟨isPlain_iff.mp hf, isPlain_iff.mp hs⟩

theorem IsPlain.unescaped {text : String} (h : IsPlain text) : Unescaped text := by
  intro hescape
  have hcontrol : ControlSequence.escape.toNat < 0x20 := by decide
  exact Nat.not_le.mpr hcontrol (isPlain_iff.mp h _ hescape).1

theorem IsPlain.isSingle {text : String} (h : IsPlain text) : IsSingle text.toList := by
  refine isSingle_iff.mpr fun c hc ↦ ?_
  have hrange := isPlain_iff.mp h c hc
  simp only [isLineEnd, Bool.or_eq_false_iff, Bool.and_eq_false_iff, decide_eq_false_iff_not,
    beq_eq_false_iff_ne]
  omega

theorem isPlain_natRepr (n : Nat) : IsPlain n.repr := by
  refine isPlain_iff.mpr fun c hc ↦ ?_
  have hrange : 48 ≤ c.toNat ∧ c.toNat ≤ 57 :=
    Char.isDigit_iff_toNat.mp (isDigit_of_mem_repr hc)
  omega

theorem isPlain_toString_int (n : Int) : IsPlain (toString n) := by
  cases n with
  | ofNat n => exact isPlain_natRepr n
  | negSucc n =>
      have hsign : IsPlain "-" := by decide
      exact hsign.append (isPlain_natRepr n.succ)

end ArithAsm.Text
