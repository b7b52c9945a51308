import ArithAsm.Text.Terminal

/-!
# Texts without escapes

A text without the escape character has no control sequence, so nothing is dropped from it.
-/

namespace ArithAsm

theorem isDigit_of_mem_repr {n : Nat} {c : Char} (h : c ∈ n.repr.toList) : c.isDigit = true := by
  rw [Nat.toList_repr] at h
  exact Nat.isDigit_of_mem_toDigits (by decide) (by decide) h

namespace Text

/-- The character that control sequences start with does not occur. -/
def Unescaped (text : String) : Prop :=
  ControlSequence.escape ∉ text.toList

instance (text : String) : Decidable (Unescaped text) :=
  inferInstanceAs (Decidable (_ ∉ _))

theorem dropSequencesFrom_nil_of_notMem {text : List Char}
    (h : ControlSequence.escape ∉ text) : dropSequencesFrom [] text = text := by
  induction text with
  | nil => rfl
  | cons c rest ih =>
      rw [List.mem_cons, not_or] at h
      rw [dropSequencesFrom, if_neg (Ne.symm h.1), ih h.2]

theorem Unescaped.dropSequences_eq {text : String} (h : Unescaped text) :
    dropSequences text = text := by
  rw [dropSequences, dropSequencesFrom_nil_of_notMem h, String.ofList_toList]

@[simp] theorem unescaped_append_iff {first second : String} :
    Unescaped (first ++ second) ↔ Unescaped first ∧ Unescaped second := by
  unfold Unescaped
  rw [String.toList_append, List.mem_append, not_or]

theorem Unescaped.append {first second : String} (hf : Unescaped first) (hs : Unescaped second) :
    Unescaped (first ++ second) :=
  unescaped_append_iff.mpr ⟨hf, hs⟩

/-- A character of joined texts is one of the separator or of some text. -/
theorem notMem_intercalate {c : Char} {separator : String} {texts : List String}
    (hseparator : c ∉ separator.toList) (h : ∀ text ∈ texts, c ∉ text.toList) :
    c ∉ (separator.intercalate texts).toList := by
  induction texts with
  | nil => exact List.not_mem_nil
  | cons text rest ih =>
      obtain ⟨htext, hrest⟩ := List.forall_mem_cons.mp h
      cases rest with
      | nil => exact htext
      | cons next rest =>
          rw [String.intercalate_cons_cons, String.toList_append, String.toList_append,
            List.mem_append, List.mem_append]
          rintro ((hmem | hmem) | hmem)
          · exact htext hmem
          · exact hseparator hmem
          · exact ih hrest hmem

theorem unescaped_intercalate {separator : String} {texts : List String}
    (hseparator : Unescaped separator) (h : ∀ text ∈ texts, Unescaped text) :
    Unescaped (separator.intercalate texts) :=
  notMem_intercalate hseparator h

end Text

end ArithAsm
