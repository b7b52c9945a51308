import ArithAsm.Shell.Word

/-!
# Texts that cannot be split

Whether a text has words is told by where its last character leaves the splitter, whatever the words
are: outside quotes, in an open quote, or behind a backslash that quotes nothing.
-/

namespace ArithAsm.Shell

namespace Position

/-- Where a character leads. -/
def next : Position → Char → Position
  | .between, c => if isSeparator c then .between else (enter c).1
  | .inside, c => if isSeparator c then .between else (enter c).1
  | .quoted mark, c =>
      if c = mark then .inside
      else if c = '\\' && mark == '"' then .quotedEscaped mark
      else .quoted mark
  | .escaped, _ => .inside
  | .quotedEscaped mark, _ => .quoted mark

/-- What is wrong with a text that ends here. -/
def fault? : Position → Option WordFault
  | .between => none
  | .inside => none
  | .quoted _ => some .openQuote
  | .escaped => some .openEscape
  | .quotedEscaped _ => some .openEscape

end Position

theorem splitFrom_eq_error_iff {fault : WordFault} (position : Position) (word text : List Char) :
    splitFrom position word text = .error fault ↔
      (text.foldl Position.next position).fault? = some fault := by
  induction text generalizing position word with
  | nil => cases position <;> simp [splitFrom, Position.fault?]
  | cons c rest ih =>
      rw [List.foldl_cons]
      cases position with
      | between =>
          rw [splitFrom, Position.next]
          by_cases hc : isSeparator c = true
          · rw [if_pos hc, if_pos hc, ih]
          · rw [if_neg hc, if_neg hc]
            exact ih _ _
      | inside =>
          rw [splitFrom, Position.next]
          by_cases hc : isSeparator c = true
          · rw [if_pos hc, if_pos hc, ← ih .between []]
            cases splitFrom .between [] rest <;> simp [Except.map]
          · rw [if_neg hc, if_neg hc]
            exact ih _ _
      | quoted mark =>
          rw [splitFrom, Position.next]
          by_cases hc : c = mark
          · rw [if_pos hc, if_pos hc, ih]
          · rw [if_neg hc, if_neg hc]
            split <;> exact ih _ _
      | escaped => exact ih _ _
      | quotedEscaped mark =>
          rw [splitFrom, Position.next]
          split <;> exact ih _ _

theorem split_eq_error_iff {text : String} {fault : WordFault} :
    split text = .error fault ↔
      (text.toList.foldl Position.next .between).fault? = some fault :=
  splitFrom_eq_error_iff .between [] text.toList

end ArithAsm.Shell
