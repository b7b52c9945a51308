import ArithAsm.Compilation
import ArithAsm.Proofs.Assembly.Interrupted
import ArithAsm.Proofs.Assembly.Listing
import ArithAsm.Proofs.Assembly.WordValue
import ArithAsm.Proofs.Expr.Drawing

/-!
# Remarks

A program with remarks is the program without them, with some more lines.  These name the nodes of
its tree in the order in which their code comes, and then the return.
-/

namespace ArithAsm

def Line.isRemark : Line → Bool
  | .remark _ => true
  | _ => false

/-- The remark on the code of a node. -/
def Expr.remark (e : Expr) : Line :=
  .remark (e.label?.getD "")

def returnRemark : Line :=
  .remark "return value becomes the exit status"

theorem filter_isRemark_code (code : List Instruction) :
    (code.map Line.code).filter Line.isRemark = [] :=
  List.filter_eq_nil_iff.mpr (List.forall_mem_map.mpr fun _ _ ↦ Bool.false_ne_true)

theorem filter_not_isRemark_code (code : List Instruction) :
    (code.map Line.code).filter (!·.isRemark) = code.map .code :=
  List.filter_eq_self.mpr (List.forall_mem_map.mpr fun _ _ ↦ rfl)

namespace Expr

theorem remarkLines_true (e : Expr) : e.remarkLines true = [e.remark] := rfl

/-- The remarks in a listing are those on the nodes, in post-order. -/
theorem filter_isRemark_listing {e : Expr} (he : e.Complete) :
    (e.listing true).filter Line.isRemark = e.postorder.map remark := by
  have hown : ∀ part : Expr, [part.remark].filter Line.isRemark = [part.remark] := fun _ ↦ rfl
  induction e with
  | literal place value =>
      obtain ⟨n, rfl⟩ := Option.isSome_iff_exists.mp he
      rw [listing, List.filter_append, remarkLines_true, hown, filter_isRemark_code]
      rfl
  | negation place operand ih =>
      rw [listing, List.filter_append, List.filter_append, ih he, remarkLines_true, hown,
        filter_isRemark_code, postorder, List.map_append, List.append_nil]
      rfl
  | binary place op left right ihl ihr =>
      obtain ⟨hop, hl, hr⟩ := he
      obtain ⟨op, rfl⟩ := Option.isSome_iff_exists.mp hop
      rw [listing, List.filter_append, List.filter_append, List.filter_append, ihl hl, ihr hr,
        remarkLines_true, hown, filter_isRemark_code, postorder, List.map_append,
        List.map_append, List.append_nil]
      rfl
  | blank place => exact he.elim
  | missing => exact he.elim

/-- What a listing holds besides remarks is the code. -/
theorem filter_not_isRemark_listing (e : Expr) :
    (e.listing true).filter (!·.isRemark) = e.code.map .code := by
  have hown : ∀ part : Expr, (part.remarkLines true).filter (!·.isRemark) = [] := fun _ ↦ rfl
  induction e with
  | literal place value =>
      cases value with
      | none => rfl
      | some n =>
          rw [listing, List.filter_append, hown, filter_not_isRemark_code]
          rfl
  | negation place operand ih =>
      rw [listing, List.filter_append, List.filter_append, ih, hown, filter_not_isRemark_code,
        code, List.append_nil, List.map_append]
  | binary place op left right ihl ihr =>
      cases op with
      | none => rfl
      | some op =>
          rw [listing, List.filter_append, List.filter_append, List.filter_append, ihl, ihr, hown,
            filter_not_isRemark_code, code, List.append_nil, List.map_append, List.map_append]
  | blank place => rfl
  | missing => rfl

/-- The lines of a program after its entry. -/
def body (remarks : Bool) (e : Expr) : List Line :=
  e.listing remarks ++ closingLines remarks

theorem body_ne_nil (remarks : Bool) (e : Expr) : e.body remarks ≠ [] :=
  List.append_ne_nil_of_right_ne_nil _ (List.append_ne_nil_of_right_ne_nil _ nofun)

theorem filter_isRemark_body {e : Expr} (he : e.Complete) :
    (e.body true).filter Line.isRemark = e.postorder.map remark ++ [returnRemark] := by
  rw [body, List.filter_append, filter_isRemark_listing he]
  rfl

theorem body_false (e : Expr) : e.body false = e.programCode.map .code := by
  rw [body, listing_false, programCode, List.map_append]
  rfl

theorem filter_not_isRemark_body (e : Expr) :
    (e.body true).filter (!·.isRemark) = e.body false := by
  rw [body_false, body, List.filter_append, filter_not_isRemark_listing, programCode,
    List.map_append]
  rfl

/-- A line after the entry is an instruction or a remark, on a node or on the return. -/
theorem code_or_remark_of_mem_body {e : Expr} (he : e.Complete) {l : Line}
    (hl : l ∈ e.body true) :
    (∃ i : Instruction, i.IsEmitted ∧ l = .code i) ∨ (∃ part : Expr, l = part.remark) ∨
      l = returnRemark := by
  cases hremark : l.isRemark with
  | false =>
      have hcode : l ∈ (e.body true).filter (!·.isRemark) :=
        List.mem_filter.mpr ⟨hl, by rw [hremark]; rfl⟩
      rw [filter_not_isRemark_body, body_false] at hcode
      obtain ⟨i, hi, rfl⟩ := List.mem_map.mp hcode
      exact .inl ⟨i, e.programCode_isEmitted i hi, rfl⟩
  | true =>
      have hmem : l ∈ (e.body true).filter Line.isRemark := List.mem_filter.mpr ⟨hl, hremark⟩
      rw [filter_isRemark_body he, List.mem_append] at hmem
      rcases hmem with hpart | hreturn
      · obtain ⟨part, -, rfl⟩ := List.mem_map.mp hpart
        exact .inr (.inl ⟨part, rfl⟩)
      · exact .inr (.inr (List.mem_singleton.mp hreturn))

theorem isPlain_of_mem_body {e : Expr} (he : e.Complete) :
    ∀ l ∈ e.body true, Text.IsPlain l.text := by
  intro l hl
  have hmark : Text.IsPlain "  # " := by decide
  rcases code_or_remark_of_mem_body he hl with ⟨i, hi, rfl⟩ | ⟨part, rfl⟩ | rfl
  · exact hi.isPlain
  · exact hmark.append part.isPlain_label
  · decide

end Expr

/-! ## Texts -/

/-- Whether a line starts with the sign of a remark. -/
def Text.isRemark (line : String) : Bool :=
  "  # ".toList.isPrefixOf line.toList

theorem Instruction.IsEmitted.isRemark_text {i : Instruction} (h : i.IsEmitted) :
    Text.isRemark (Line.code i).text = false := by
  rw [Text.isRemark, toList_text_line]
  cases h with
  | constant c => simp [toList_text_push, List.isPrefixOf]
  | load c => simp [toList_text_load, List.isPrefixOf]
  | constantFree hi =>
      revert i
      decide

theorem isRemark_text_remark (text : String) : Text.isRemark (Line.remark text).text = true := by
  rw [Text.isRemark, List.isPrefixOf_iff_prefix]
  exact ⟨text.toList, String.toList_append.symm⟩

theorem Expr.isRemark_text_of_mem_body {e : Expr} (he : e.Complete) :
    ∀ l ∈ e.body true, Text.isRemark l.text = l.isRemark := by
  intro l hl
  rcases code_or_remark_of_mem_body he hl with ⟨i, hi, rfl⟩ | ⟨part, rfl⟩ | rfl
  · exact hi.isRemark_text
  · exact isRemark_text_remark _
  · exact isRemark_text_remark _

theorem programText_append {lines rest : List Line} (hl : lines ≠ []) (hr : rest ≠ []) :
    programText (lines ++ rest) = programText lines ++ programText rest := by
  rw [programText_eq_join hl, programText_eq_join hr,
    programText_eq_join (List.append_ne_nil_of_left_ne_nil hl rest), List.map_append,
    List.map_append, String.join_append]

/-- The text of the lines that come before the code. -/
def entryHeading (entry : String) : String :=
  ".intel_syntax noprefix\n.globl " ++ entry ++ "\n" ++ entry ++ ":\n"

theorem programText_opening (entry : String) :
    programText [.notationChoice, .visible entry, .label entry] = entryHeading entry := by
  have hfirst : ".intel_syntax noprefix\n.globl " = ".intel_syntax noprefix" ++ "\n" ++ ".globl " :=
    by decide
  have hlast : ":\n" = ":" ++ "\n" := by decide
  unfold entryHeading
  rw [hfirst, hlast, programText_eq_join (List.cons_ne_nil _ _)]
  simp only [List.map_cons, List.map_nil, String.join_cons, String.join_nil, Line.text,
    String.append_assoc, String.append_empty]
  rfl

theorem Expr.programText_programLines (entry : String) (remarks : Bool) (e : Expr) :
    programText (e.programLines entry remarks) =
      entryHeading entry ++ programText (e.body remarks) := by
  have hopening : [Line.notationChoice, .visible entry, .label entry] ≠ [] := List.cons_ne_nil _ _
  rw [programLines, List.append_assoc, ← body, programText_append hopening (e.body_ne_nil remarks),
    programText_opening]

theorem Expr.lines_body {e : Expr} (he : e.Complete) :
    Text.lines (programText (e.body true)) = (e.body true).map Line.text :=
  lines_programText (e.body_ne_nil true) fun l hl ↦ (e.isPlain_of_mem_body he l hl).isSingle

theorem Expr.map_label?_postorder {e : Expr} (he : e.Complete) (hshort : e.Short) :
    e.postorder.map label? = (e.postorder.map fun part ↦ part.label?.getD "").map some := by
  induction e with
  | literal place value =>
      obtain ⟨label, hlabel⟩ := exists_label? he.operated hshort
      simp [postorder, hlabel]
  | negation place operand ih => simp [postorder, ih he hshort, label?]
  | binary place op left right ihl ihr =>
      obtain ⟨hop, hl, hr⟩ := he
      obtain ⟨op, rfl⟩ := Option.isSome_iff_exists.mp hop
      simp [postorder, ihl hl hshort.1, ihr hr hshort.2, label?]
  | blank place => exact he.elim
  | missing => exact he.elim

/-- Remarks do not change a program, and they name every node.  What comes after the lines for the
entry consists of lines that end with a line feed each.  Without those that start with the sign of a
remark it is the program without remarks, and those have the labels of the nodes in post-order and
a last remark on the return.  Where a number is too long there is neither program. -/
theorem Compilation.result_assemble_remarked {e : Expr} (he : e.Complete) (entry : String) :
    (e.Short →
      ∃ (plainLines remarkedLines : List Line) (plain remarked : String) (labels : List String),
        let heading := ".intel_syntax noprefix\n.globl " ++ entry ++ "\n" ++ entry ++ ":\n"
        let found := Text.lines remarked
        (assemble { entry } e).result = .ok plainLines ∧
        (assemble { entry, remarks := true } e).result = .ok remarkedLines ∧
        programText plainLines = heading ++ plain ∧
        programText remarkedLines = heading ++ remarked ∧
        String.join (found.map (· ++ "\n")) = remarked ∧
        String.join ((found.filter (!Text.isRemark ·)).map (· ++ "\n")) = plain ∧
        found.filter Text.isRemark =
          labels.map ("  # " ++ ·) ++ ["  # return value becomes the exit status"] ∧
        e.postorder.map Expr.label? = labels.map some) ∧
    (¬ e.Short → ∀ remarks, (assemble { entry, remarks } e).result = .error .tooLong) := by
  refine ⟨fun hshort ↦ ?_, fun hlong remarks ↦ ?_⟩
  · have hresult : ∀ remarks, (assemble { entry, remarks } e).result =
        .ok (e.programLines entry remarks) := fun remarks ↦ by
      rw [assemble, Expr.program_eq_ok rfl he hshort]
    have hmark := e.isRemark_text_of_mem_body he
    refine ⟨_, _, programText (e.body false), programText (e.body true), _, hresult false,
      hresult true, e.programText_programLines entry false, e.programText_programLines entry true,
      ?_, ?_, ?_, Expr.map_label?_postorder he hshort⟩
    · rw [Expr.lines_body he, programText_eq_join (e.body_ne_nil true)]
    · have hplain : ∀ l ∈ e.body true, (!Text.isRemark l.text) = !l.isRemark := fun l hl ↦ by
        rw [hmark l hl]
      rw [Expr.lines_body he, List.filter_map, programText_eq_join (e.body_ne_nil false),
        ← e.filter_not_isRemark_body]
      exact congrArg (fun lines : List Line ↦ String.join ((lines.map Line.text).map (· ++ "\n")))
        (List.filter_congr hplain)
    · rw [Expr.lines_body he, List.filter_map]
      calc ((e.body true).filter (Text.isRemark ∘ Line.text)).map Line.text
          = ((e.body true).filter Line.isRemark).map Line.text :=
            congrArg (List.map Line.text) (List.filter_congr hmark)
        _ = (e.postorder.map Expr.remark ++ [returnRemark]).map Line.text := by
            rw [Expr.filter_isRemark_body he]
        _ = _ := by
            rw [List.map_append, List.map_map, List.map_map]
            rfl
  · rw [assemble, Expr.program_eq_tooLong rfl he hlong]
    rfl

/-- The tree of `-(9999999999/2)`. -/
theorem Compilation.result_assemble_remarked_negation :
    let e : Expr := .negation default (.binary default (some .div)
      (.literal default (some 9999999999)) (.literal default (some 2)))
    e.Complete ∧ ∃ (lines : List Line) (remarked : String),
      (assemble { entry := "start", remarks := true } e).result = .ok lines ∧
      programText lines = ".intel_syntax noprefix\n.globl start\nstart:\n" ++ remarked ∧
      (Text.lines remarked).filter Text.isRemark =
        ["  # Literal(9999999999)", "  # Literal(2)", "  # BinaryOp(DIV)", "  # UnaryMinus",
          "  # return value becomes the exit status"] := by
  intro e
  have he : e.Complete := ⟨rfl, rfl, rfl⟩
  obtain ⟨_, lines, _, remarked, labels, -, hlines, -, htext, -, -, hremarks, hlabels⟩ :=
    (result_assemble_remarked he "start").1 (by decide)
  have hnames : labels = ["Literal(9999999999)", "Literal(2)", "BinaryOp(DIV)", "UnaryMinus"] :=
    (List.map_inj_right fun _ _ ↦ Option.some.inj).mp (hlabels.symm.trans (by decide))
  rw [hnames] at hremarks
  exact ⟨he, lines, remarked, hlines, htext, hremarks⟩

/-- A number that is too long stops a program with remarks, and as well one without them. -/
theorem Compilation.result_assemble_remarked_of_long_literal :
    let e : Expr := .literal default (some leastLong)
    e.Complete ∧ ∀ remarks lines, (assemble { remarks } e).result ≠ .ok lines := by
  intro e
  have he : e.Complete := rfl
  have hlong : ¬ e.Short := fun hshort ↦ not_isShort_leastLong (hshort _ rfl)
  refine ⟨he, fun remarks lines ↦ ?_⟩
  rw [assemble, Expr.program_eq_tooLong rfl he hlong]
  intro hok
  cases hok

end ArithAsm
