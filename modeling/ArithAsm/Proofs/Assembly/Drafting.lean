import ArithAsm.Assembly.Code
import ArithAsm.Assembly.Machine
import ArithAsm.Proofs.Attempts

/-!
# What a draft adds

The steps of a draft of a tree without gaps always succeed if its numbers are short.  What each of
them adds to the sheet does not depend on what is there already, and neither does its effect on the
depth.  So the lines of a program are those of the parts of its tree put end to end.
-/

namespace ArithAsm

open Attempt

/-- The remark on the code of a node, where remarks are wanted. -/
def Expr.remarkLines (remarks : Bool) (e : Expr) : List Line :=
  if remarks then [.remark ((e.label?).getD "")] else []

/-- The lines for a tree: the code of its nodes in post-order, each after its remark. -/
def Expr.listing (remarks : Bool) : Expr → List Line
  | e@(.literal _ (some n)) => e.remarkLines remarks ++ (numberCode n).map .code
  | e@(.negation _ operand) =>
      operand.listing remarks ++ e.remarkLines remarks ++ negationCode.map .code
  | e@(.binary _ (some op) left right) =>
      left.listing remarks ++ right.listing remarks ++ e.remarkLines remarks ++
        (operationCode op).map .code
  | _ => []

def closingLines (remarks : Bool) : List Line :=
  (if remarks then [.remark "return value becomes the exit status"] else []) ++
    [.code (.pop (.register .rax)), .code .ret]

def Expr.programLines (entry : String) (remarks : Bool) (e : Expr) : List Line :=
  [.notationChoice, .visible entry, .label entry] ++ e.listing remarks ++ closingLines remarks

namespace Draft

/-- The result of a step on a draft, and the draft after it. -/
def apply {α : Type} (step : Writing α) (d : Draft) : Except DraftFault α × Draft :=
  step.run.run d

def Adds (step : Writing Unit) (lines : List Line) (before after : Nat) : Prop :=
  ∀ sheet : Array Line, step.run.run ⟨sheet, before⟩ = (.ok (), ⟨sheet ++ lines, after⟩)

namespace Adds

variable {before between after : Nat}

theorem append_lines (sheet : Array Line) (lines rest : List Line) :
    sheet ++ lines ++ rest = sheet ++ (lines ++ rest) :=
  Array.ext' (by simp)

theorem of_eq {step : Writing Unit} {lines lines' : List Line}
    (h : Adds step lines before after) (heq : lines = lines') : Adds step lines' before after :=
  heq ▸ h

theorem nothing : Adds (pure ()) [] before before := by
  intro sheet
  rw [Array.appendList_nil]
  rfl

theorem seq {first second : Writing Unit} {lines rest : List Line}
    (hf : Adds first lines before between) (hs : Adds second rest between after) :
    Adds (do first; second) (lines ++ rest) before after := by
  intro sheet
  rw [run_bind_of_ok (hf sheet), hs, append_lines]

theorem line (l : Line) : Adds (Draft.line l) [l] before before := by
  intro sheet
  rw [Array.appendList_cons, Array.appendList_nil]
  rfl

theorem code (i : Instruction) : Adds (Draft.code i) [.code i] before before :=
  line (.code i)

theorem push (operand : Operand) :
    Adds (Draft.push operand) [.code (.push operand)] before (before + 1) := by
  intro sheet
  rw [Array.appendList_cons, Array.appendList_nil]
  rfl

/-- Where the depth is not zero there is a value to take. -/
theorem pop (target : Operand) :
    Adds (Draft.pop target) [.code (.pop target)] (before + 1) before := by
  intro sheet
  unfold Draft.pop
  rw [run_bind_of_ok (run_get _), if_neg (Nat.succ_ne_zero before), Array.appendList_cons,
    Array.appendList_nil]
  rfl

theorem remark (style : DraftStyle) (text : String) :
    Adds (Draft.remark style text) (if style.remarks then [.remark text] else [])
      before before := by
  unfold Draft.remark
  cases style.remarks with
  | true => exact line (.remark text)
  | false => exact nothing

theorem codes (instructions : List Instruction) :
    Adds (instructions.forM Draft.code) (instructions.map .code) before before := by
  induction instructions with
  | nil => exact nothing
  | cons i rest ih => exact (code i).seq ih

/-- A node with a label gets its remark. -/
theorem remarkOn (style : DraftStyle) {e : Expr} {label : String} (h : e.label? = some label) :
    Adds (Draft.remarkOn style e) (e.remarkLines style.remarks) before before := by
  have hlabel : (labelOf e : Writing String) = pure label := by
    rw [labelOf, h]
  unfold Draft.remarkOn Expr.remarkLines
  rw [hlabel, pure_bind, h]
  exact remark style label

theorem literal (c : Constant) :
    Adds (Draft.literal c) ((literalCode c).map .code) before (before + 1) := by
  unfold Draft.literal literalCode
  split
  · exact push (.immediate c)
  · exact (code (.load c)).seq (push (.register .rax))

/-- A literal whose number is short: its remark, and then its code. -/
theorem number (style : DraftStyle) (place : Location) (c : Constant) :
    Adds (do Draft.remarkOn style (.literal place (some c.value))
             Draft.literal (← Draft.constant c.value))
      ((Expr.literal place (some c.value)).remarkLines style.remarks ++
        (numberCode c.value).map .code) before (before + 1) := by
  have hconstant : (Draft.constant c.value : Writing Constant) = pure c := by
    rw [Draft.constant, Constant.of?_value]
  rw [hconstant, pure_bind, numberCode_value]
  exact (remarkOn style (Expr.label?_literal_value place c)).seq (literal c)

/-- The check that a node's code adds one value changes nothing where it does. -/
theorem balanced {style : DraftStyle} {e : Expr} {step : Writing Unit} {lines : List Line}
    (h : Adds step lines before (before + 1)) :
    Adds (Draft.balanced style e step) lines before (before + 1) := by
  intro sheet
  unfold Draft.balanced
  rw [run_bind_of_ok (run_get _), run_bind_of_ok (h sheet), run_bind_of_ok (run_get _),
    if_neg (by simp)]
  rfl

/-- A node without gaps: the code of its parts, and then its own after its remark. -/
theorem write {style : DraftStyle} (hliteral : style.literalPushes = none) {e : Expr}
    (he : e.Complete) (hshort : e.Short) :
    Adds (Draft.write style e) (e.listing style.remarks) before (before + 1) := by
  induction e generalizing before with
  | literal place value =>
      obtain ⟨n, rfl⟩ := Option.isSome_iff_exists.mp he
      unfold Draft.write
      rw [hliteral]
      exact balanced (number style place ⟨n, hshort n rfl⟩)
  | negation place operand ih =>
      have htake : Adds (Draft.pop (.register .rax)) _ (before + 1) before := pop _
      have hown := htake.seq ((code .neg).seq (push (.register .rax)))
      unfold Draft.write
      exact (balanced ((ih he hshort).seq ((remarkOn style rfl).seq hown))).of_eq
        (by simp [Expr.listing, negationCode])
  | binary place op left right ihl ihr =>
      obtain ⟨hop, hl, hr⟩ := he
      obtain ⟨op, rfl⟩ := Option.isSome_iff_exists.mp hop
      have htake : Adds (Draft.pop (.register .rdi)) _ (before + 1 + 1) (before + 1) := pop _
      have hown := htake.seq
        ((pop (.register .rax)).seq ((codes op.instructions).seq (push (.register .rax))))
      unfold Draft.write
      exact (balanced ((ihl hl hshort.1).seq ((ihr hr hshort.2).seq
        ((remarkOn style rfl).seq hown)))).of_eq (by simp [Expr.listing, operationCode])
  | blank place => exact he.elim
  | missing => exact he.elim

theorem opening (style : DraftStyle) :
    Adds (Draft.opening style)
      [.notationChoice, .visible style.entry, .label style.entry] before before :=
  (line _).seq ((line _).seq (line _))

theorem closing (style : DraftStyle) :
    Adds (Draft.closing style) (closingLines style.remarks) (before + 1) before :=
  (remark style _).seq ((pop (.register .rax)).seq (code .ret))

end Adds

end Draft

/-- A tree without gaps and with short numbers has a program, whose lines are the listing of the
tree between the lines that every program starts and ends with. -/
theorem Expr.program_eq_ok {style : DraftStyle} (hliteral : style.literalPushes = none)
    {e : Expr} (he : e.Complete) (hshort : e.Short) :
    e.program style = .ok (e.programLines style.entry style.remarks) := by
  unfold Expr.program Draft.program
  rw [run_bind_of_ok (run_set _ _),
    run_bind_of_ok (Draft.Adds.opening style #[]),
    run_bind_of_ok (Draft.Adds.write hliteral he hshort _),
    run_bind_of_ok (run_get _), if_neg (by simp),
    run_bind_of_ok (Draft.Adds.closing style _), run_bind_of_ok (run_get _)]
  refine congrArg Except.ok ?_
  simp [programLines]

/-! ## The instructions among the lines -/

@[simp] theorem instructionsOf_nil : instructionsOf [] = [] := rfl

@[simp] theorem instructionsOf_append (first second : List Line) :
    instructionsOf (first ++ second) = instructionsOf first ++ instructionsOf second :=
  List.filterMap_append

@[simp] theorem instructionsOf_map_code (code : List Instruction) :
    instructionsOf (code.map .code) = code := by
  induction code with
  | nil => rfl
  | cons i rest ih => exact congrArg (i :: ·) ih

@[simp] theorem instructionsOf_remarkLines (remarks : Bool) (e : Expr) :
    instructionsOf (e.remarkLines remarks) = [] := by
  cases remarks <;> rfl

@[simp] theorem instructionsOf_closingLines (remarks : Bool) :
    instructionsOf (closingLines remarks) = [.pop (.register .rax), .ret] := by
  cases remarks <;> rfl

/-- Remarks aside, the listing of a tree is its code. -/
theorem Expr.instructionsOf_listing (remarks : Bool) (e : Expr) :
    instructionsOf (e.listing remarks) = e.code := by
  induction e with
  | literal place value => cases value <;> simp [listing, code]
  | negation place operand ih => simp [listing, code, ih]
  | binary place op left right ihl ihr => cases op <;> simp [listing, code, ihl, ihr]
  | blank place => rfl
  | missing => rfl

theorem Expr.instructionsOf_programLines (entry : String) (remarks : Bool) (e : Expr) :
    instructionsOf (e.programLines entry remarks) = e.programCode := by
  rw [programLines, instructionsOf_append, instructionsOf_append, e.instructionsOf_listing,
    instructionsOf_closingLines]
  rfl

end ArithAsm
