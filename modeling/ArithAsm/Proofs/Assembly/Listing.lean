import ArithAsm.Compilation
import ArithAsm.Proofs.Assembly.Drafting
import ArithAsm.Proofs.Assembly.Frame
import ArithAsm.Proofs.Text.Numeral
import ArithAsm.Proofs.Text.Plain

/-!
# Reading a program back

An assembly text is read line by line: past the label of its entry, every line is to hold an
instruction.  From the text of a program without remarks this gives the instructions that the
program was drafted with.
-/

namespace ArithAsm

/-! ## Lines -/

namespace Instruction

def after? (head text : List Char) : Option (List Char) :=
  if head.isPrefixOf text then some (text.drop head.length) else none

theorem after?_append (head text : List Char) : after? head (head ++ text) = some text := by
  simp [after?]

/-- The constant that a text denotes. -/
def constantOf? (text : List Char) : Option Constant :=
  (integerOf? text).bind Constant.of?

theorem constantOf?_text (c : Constant) : constantOf? c.text.toList = some c := by
  rw [constantOf?, Constant.text, integerOf?_toString, Option.bind_some, Constant.of?_value]

/-- The instruction that a text spells. -/
def ofText? (text : List Char) : Option Instruction :=
  match (after? "push ".toList text).bind constantOf?,
    (after? "mov rax, ".toList text).bind constantOf? with
  | some c, _ => some (.push (.immediate c))
  | none, some c => some (.load c)
  | none, none => constantFree.find? fun i ↦ i.text.toList = text

/-- The instruction on a line, which is indented by two blanks. -/
def ofLine? (line : String) : Option Instruction :=
  (after? "  ".toList line.toList).bind ofText?

theorem toList_text_push (c : Constant) :
    (push (.immediate c)).text.toList = "push ".toList ++ c.text.toList :=
  String.toList_append

theorem toList_text_load (c : Constant) :
    (load c).text.toList = "mov rax, ".toList ++ c.text.toList :=
  String.toList_append

theorem toList_text_line (i : Instruction) :
    (Line.code i).text.toList = "  ".toList ++ i.text.toList :=
  String.toList_append

theorem ofText?_text {i : Instruction} (h : i.IsEmitted) : ofText? i.text.toList = some i := by
  cases h with
  | constant c =>
      rw [toList_text_push, ofText?, after?_append, Option.bind_some, constantOf?_text]
  | load c =>
      have hpush : after? "push ".toList ("mov rax, ".toList ++ c.text.toList) = none := by
        simp [after?]
      rw [toList_text_load, ofText?, hpush, after?_append, Option.bind_some, constantOf?_text]
      rfl
  | constantFree hi =>
      revert i
      decide

theorem ofLine?_text {i : Instruction} (h : i.IsEmitted) :
    ofLine? (Line.code i).text = some i := by
  rw [ofLine?, toList_text_line, after?_append, Option.bind_some, ofText?_text h]

end Instruction

theorem Instruction.IsEmitted.isPlain {i : Instruction} (h : i.IsEmitted) :
    Text.IsPlain (Line.code i).text := by
  have hindent : Text.IsPlain "  " := by decide
  refine hindent.append ?_
  cases h with
  | constant c =>
      have hpush : Text.IsPlain "push " := by decide
      exact hpush.append (Text.isPlain_toString_int c.value)
  | load c =>
      have hload : Text.IsPlain "mov rax, " := by decide
      exact hload.append (Text.isPlain_toString_int c.value)
  | constantFree hi =>
      revert i
      decide

theorem programText_eq_join {lines : List Line} (h : lines ≠ []) :
    programText lines = String.join ((lines.map Line.text).map (· ++ "\n")) :=
  intercalate_append_newline (mt List.map_eq_nil_iff.mp h)

/-- The lines of a program's text are the lines it was written from. -/
theorem lines_programText {lines : List Line} (hne : lines ≠ [])
    (h : ∀ l ∈ lines, Text.IsSingle l.text.toList) :
    Text.lines (programText lines) = lines.map Line.text := by
  rw [programText_eq_join hne, lines_join_newline (List.forall_mem_map.mpr h)]

/-! ## Programs -/

/-- The code that a text holds after a label, if every line there is an instruction. -/
def codeOfText? (label text : String) : Option (List Instruction) :=
  (((Text.lines text).dropWhile (· ≠ s!"{label}:")).drop 1).mapM Instruction.ofLine?

theorem mapM_ofLine? {code : List Instruction} (h : ∀ i ∈ code, i.IsEmitted) :
    ((code.map .code).map Line.text).mapM Instruction.ofLine? = some code := by
  induction code with
  | nil => rfl
  | cons i rest ih =>
      obtain ⟨hi, hrest⟩ := List.forall_mem_cons.mp h
      rw [List.map_cons, List.map_cons, List.mapM_cons, Instruction.ofLine?_text hi, ih hrest]
      rfl

namespace Expr

theorem listing_false (e : Expr) : e.listing false = e.code.map .code := by
  induction e with
  | literal place value => cases value <;> simp [listing, code, remarkLines]
  | negation place operand ih => simp [listing, code, remarkLines, ih]
  | binary place op left right ihl ihr =>
      cases op <;> simp [listing, code, remarkLines, ihl, ihr]
  | blank place => rfl
  | missing => rfl

theorem programLines_false (entry : String) (e : Expr) :
    e.programLines entry false =
      [.notationChoice, .visible entry, .label entry] ++ e.programCode.map .code := by
  simp [programLines, listing_false, closingLines, programCode]

/-- The text of a program for a tree gives back the code of the program. -/
theorem codeOfText?_programText (e : Expr) :
    codeOfText? "main" (programText (e.programLines "main" false)) = some e.programCode := by
  have hhead : ∀ l ∈ [Line.notationChoice, .visible "main", .label "main"],
      Text.IsSingle l.text.toList := by
    decide
  have hcode : ∀ l ∈ e.programCode.map Line.code, Text.IsSingle l.text.toList := by
    intro l hl
    obtain ⟨i, hi, rfl⟩ := List.mem_map.mp hl
    exact (e.programCode_isEmitted i hi).isPlain.isSingle
  rw [codeOfText?, programLines_false, lines_programText (by simp)
    (List.forall_mem_append.mpr ⟨hhead, hcode⟩), List.map_append]
  exact mapM_ofLine? e.programCode_isEmitted

end Expr

end ArithAsm
