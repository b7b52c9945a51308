import ArithAsm.Text.Line

/-!
# Breaking a text into lines

Texts without line ends, and the lines of a text that was written line by line.
-/

namespace ArithAsm

def Text.IsSingle (text : List Char) : Prop :=
  text.any isLineEnd = false

instance (text : List Char) : Decidable (Text.IsSingle text) :=
  inferInstanceAs (Decidable (_ = _))

theorem Text.isSingle_iff {text : List Char} :
    IsSingle text ↔ ∀ c ∈ text, isLineEnd c = false := by
  simp [IsSingle]

theorem isLineEnd_of_isDigit {c : Char} (h : c.isDigit = true) : Text.isLineEnd c = false := by
  have hrange : 48 ≤ c.toNat ∧ c.toNat ≤ 57 := by simpa [Char.isDigit_iff_toNat] using h
  simp only [Text.isLineEnd, Bool.or_eq_false_iff, Bool.and_eq_false_iff,
    decide_eq_false_iff_not, beq_eq_false_iff_ne]
  omega

namespace Text

theorem splitLines_line {line : List Char} (h : IsSingle line) (rest : List Char) :
    splitLines (line ++ '\n' :: rest) = line :: splitLines rest := by
  induction line with
  | nil =>
      have hend : isLineEnd '\n' = true := by decide
      rw [List.nil_append, splitLines, if_pos hend]
      rintro rest ⟨⟩
  | cons c line ih =>
      obtain ⟨hc, hline⟩ := Bool.or_eq_false_iff.mp h
      have hreturn : c ≠ '\r' := by
        rintro rfl
        cases hc
      rw [List.cons_append, splitLines, ih hline, hc]
      · rfl
      · -- A carriage return would take the line feed with it.
        intro rest heq
        exact absurd heq hreturn

/-- A text without line ends is a single line, unless it is empty. -/
theorem splitLines_eq_singleton {line : List Char} (h : IsSingle line) (hne : line ≠ []) :
    splitLines line = [line] := by
  induction line with
  | nil => exact absurd rfl hne
  | cons c rest ih =>
      obtain ⟨hc, hrest⟩ := Bool.or_eq_false_iff.mp h
      have hreturn : c ≠ '\r' := by
        rintro rfl
        cases hc
      rw [splitLines, hc]
      · cases rest with
        | nil => rfl
        | cons next rest =>
            rw [ih hrest (List.cons_ne_nil next rest)]
            rfl
      · intro rest heq
        exact absurd heq hreturn

/-- A text that is not empty has a first line, which stops at the first line end of any kind. -/
theorem exists_splitLines_eq_cons {text : List Char} (h : text ≠ []) :
    ∃ more, splitLines text = (text.takeWhile fun c ↦ !isLineEnd c) :: more := by
  fun_induction splitLines text with
  | case1 => exact absurd rfl h
  | case2 rest ih => exact ⟨splitLines rest, rfl⟩
  | case3 c rest hreturn hc ih =>
      exact ⟨splitLines rest, by rw [List.takeWhile_cons, hc]; rfl⟩
  | case4 c rest hreturn hc hrest ih =>
      cases rest with
      | nil => exact ⟨[], by simp [hc]⟩
      | cons next rest =>
          obtain ⟨more, hmore⟩ := ih (List.cons_ne_nil next rest)
          rw [hrest] at hmore
          cases hmore
  | case5 c rest hreturn hc line more hrest ih =>
      have hne : rest ≠ [] := by
        rintro rfl
        cases hrest
      obtain ⟨more', hmore⟩ := ih hne
      obtain ⟨rfl, rfl⟩ := List.cons.inj (hrest.symm.trans hmore)
      exact ⟨more, by simp [hc]⟩

end Text

theorem intercalate_append_newline {texts : List String} (h : texts ≠ []) :
    "\n".intercalate texts ++ "\n" = String.join (texts.map (· ++ "\n")) := by
  induction texts with
  | nil => exact absurd rfl h
  | cons text rest ih =>
      by_cases hrest : rest = []
      · simp [hrest]
      · rw [List.map_cons, String.join_cons, ← ih hrest, String.intercalate_cons_of_ne_nil hrest,
          String.append_assoc, String.append_assoc]

theorem intercalate_newline_cons (first : String) (rest : List String) :
    "\n".intercalate (first :: rest) = first ++ String.join (rest.map ("\n" ++ ·)) := by
  induction rest generalizing first with
  | nil => simp
  | cons second rest ih =>
      rw [String.intercalate_cons_cons, ih, List.map_cons, String.join_cons, String.append_assoc,
        String.append_assoc]

/-- The lines of a text written line by line are those it was written from. -/
theorem lines_join_newline {texts : List String} (h : ∀ text ∈ texts, Text.IsSingle text.toList) :
    Text.lines (String.join (texts.map (· ++ "\n"))) = texts := by
  rw [Text.lines]
  induction texts with
  | nil => rfl
  | cons text rest ih =>
      obtain ⟨htext, hrest⟩ := List.forall_mem_cons.mp h
      have hend : "\n".toList = ['\n'] := by decide
      rw [List.map_cons, String.join_cons, String.toList_append, String.toList_append, hend,
        List.append_assoc, List.singleton_append, Text.splitLines_line htext, List.map_cons,
        ih hrest, String.ofList_toList]

/-- The lines of joined texts are these texts, if none of them is empty. -/
theorem lines_intercalate_newline {texts : List String}
    (h : ∀ text ∈ texts, Text.IsSingle text.toList ∧ text ≠ "") :
    Text.lines ("\n".intercalate texts) = texts := by
  have hend : "\n".toList = ['\n'] := by decide
  rw [Text.lines]
  induction texts with
  | nil => rfl
  | cons text rest ih =>
      obtain ⟨⟨htext, hne⟩, hrest⟩ := List.forall_mem_cons.mp h
      cases rest with
      | nil =>
          rw [String.intercalate_singleton, Text.splitLines_eq_singleton htext (by simpa using hne)]
          simp
      | cons next rest =>
          rw [String.intercalate_cons_cons, String.toList_append, String.toList_append, hend,
            List.append_assoc, List.singleton_append, Text.splitLines_line htext, List.map_cons,
            ih hrest, String.ofList_toList]

end ArithAsm
