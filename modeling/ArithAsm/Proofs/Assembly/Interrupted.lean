import ArithAsm.Compilation
import ArithAsm.Proofs.Assembly.Recorded
import ArithAsm.Proofs.Assembly.WordValue

/-!
# Drafts of trees with gaps

A draft writes line by line, so what it does to any tree is told by the lines up to the first gap
in post-order and by the fault there.  A number that is too long to be written is as good as a gap.
The checks of the depth never fail, whether the draft is finished or stops half way.
-/

namespace ArithAsm

open Attempt

namespace Expr

/-- Every literal has a value. -/
def Numbered : Expr → Prop
  | .literal _ value => value.isSome
  | .negation _ operand => operand.Numbered
  | .binary _ _ left right => left.Numbered ∧ right.Numbered
  | _ => True

/-- Why a node has no code of its own, if it has none. -/
def gapFault? : Expr → Option DraftFault
  | .literal _ (some n) => if IsShort n then none else some (.noText .tooLong)
  | .binary _ none .. => some (.noText .noOperator)
  | .blank _ => some (.noCode "Expression")
  | .missing => some (.noCode "NoneType")
  | _ => none

theorem complete_of_findSome? {e : Expr} (he : e.Numbered)
    (h : e.postorder.findSome? gapFault? = none) : e.Complete ∧ e.Short := by
  induction e with
  | literal place value =>
      refine ⟨he, ?_⟩
      rintro n ⟨⟩
      by_contra hlong
      have hnodes : (literal place (some n)).postorder = [literal place (some n)] := rfl
      rw [hnodes, List.findSome?_singleton, gapFault?, if_neg hlong] at h
      cases h
  | negation place operand ih =>
      rw [postorder, List.findSome?_append, Option.or_eq_none_iff] at h
      exact ih he h.1
  | binary place op left right ihl ihr =>
      rw [postorder, List.findSome?_append, List.findSome?_append, Option.or_eq_none_iff,
        Option.or_eq_none_iff] at h
      obtain ⟨⟨hl, hr⟩, hown⟩ := h
      obtain ⟨hleft, hleftShort⟩ := ihl he.1 hl
      obtain ⟨hright, hrightShort⟩ := ihr he.2 hr
      refine ⟨⟨?_, hleft, hright⟩, hleftShort, hrightShort⟩
      cases op with
      | none => cases hown
      | some op => rfl
  | blank place => cases h
  | missing => cases h

theorem Complete.numbered {e : Expr} (he : e.Complete) : e.Numbered := by
  induction e with
  | literal place value => exact he
  | negation place operand ih => exact ih he
  | binary place op left right ihl ihr => exact ⟨ihl he.2.1, ihr he.2.2⟩
  | blank place => exact he.elim
  | missing => exact he.elim

theorem Complete.of_mem_postorder {e : Expr} (he : e.Complete) :
    ∀ part ∈ e.postorder, part.Complete := by
  induction e with
  | negation place operand ih =>
      exact List.forall_mem_append.mpr ⟨ih he, List.forall_mem_singleton.mpr he⟩
  | binary place op left right ihl ihr =>
      exact List.forall_mem_append.mpr ⟨List.forall_mem_append.mpr ⟨ihl he.2.1, ihr he.2.2⟩,
        List.forall_mem_singleton.mpr he⟩
  | _ => exact List.forall_mem_singleton.mpr he

/-- Without gaps, what stops a draft is a number. -/
theorem Complete.eq_of_gapFault? {e : Expr} (he : e.Complete) {fault : DraftFault}
    (h : e.gapFault? = some fault) : fault = .noText .tooLong := by
  cases e with
  | literal place value =>
      obtain ⟨n, rfl⟩ := Option.isSome_iff_exists.mp he
      rw [gapFault?] at h
      split at h <;> cases h
      rfl
  | negation place operand => cases h
  | binary place op left right =>
      obtain ⟨op, rfl⟩ := Option.isSome_iff_exists.mp he.1
      cases h
  | blank place => exact he.elim
  | missing => exact he.elim

end Expr

/-- The lines that a draft adds, and the fault at which it stops, if it does. -/
structure Course where
  lines : List Line
  fault? : Option DraftFault

namespace Course

def result (c : Course) : Except DraftFault Unit :=
  match c.fault? with
  | none => .ok ()
  | some fault => .error fault

/-- A fault keeps the second course from being taken. -/
def andThen (first second : Course) : Course :=
  match first.fault? with
  | none => ⟨first.lines ++ second.lines, second.fault?⟩
  | some _ => first

def ofNode (remarks : Bool) (e : Expr) : Course :=
  match e.gapFault? with
  | none => ⟨e.remarkLines remarks ++ e.ownCode.map .code, none⟩
  | some fault => ⟨[], some fault⟩

def ofNodes (remarks : Bool) : List Expr → Course
  | [] => ⟨[], none⟩
  | e :: rest => (ofNode remarks e).andThen (ofNodes remarks rest)

theorem andThen_assoc (a b c : Course) : (a.andThen b).andThen c = a.andThen (b.andThen c) := by
  obtain ⟨_, _ | _⟩ := a
  · obtain ⟨_, _ | _⟩ := b
    · simp [andThen]
    · rfl
  · rfl

theorem ofNodes_append (remarks : Bool) (first second : List Expr) :
    ofNodes remarks (first ++ second) =
      (ofNodes remarks first).andThen (ofNodes remarks second) := by
  induction first with
  | nil => rfl
  | cons e rest ih => rw [List.cons_append, ofNodes, ih, ofNodes, andThen_assoc]

theorem ofNodes_singleton (remarks : Bool) (e : Expr) :
    ofNodes remarks [e] = ofNode remarks e := by
  rw [ofNodes, ofNodes]
  obtain ⟨lines, _ | _⟩ := ofNode remarks e
  · simp [andThen]
  · rfl

theorem fault?_ofNodes (remarks : Bool) (nodes : List Expr) :
    (ofNodes remarks nodes).fault? = nodes.findSome? Expr.gapFault? := by
  induction nodes with
  | nil => rfl
  | cons e rest ih =>
      rw [ofNodes, ofNode, List.findSome?_cons]
      cases e.gapFault? with
      | none => exact ih
      | some fault => rfl

end Course

namespace Draft

/-- The step goes as a course says.  If it is not stopped, the depth is known. -/
def Follows (step : Writing Unit) (c : Course) (before after : Nat) : Prop :=
  ∃ last, (∀ sheet, step.run.run ⟨sheet, before⟩ = (c.result, ⟨sheet ++ c.lines, last⟩)) ∧
    (c.fault? = none → last = after)

namespace Follows

variable {before between after : Nat} {step first second : Writing Unit} {c c' : Course}

theorem of_adds {lines : List Line} (h : Adds step lines before after) :
    Follows step ⟨lines, none⟩ before after :=
  ⟨after, h, fun _ ↦ rfl⟩

theorem stop (fault : DraftFault) : Follows (throw fault) ⟨[], some fault⟩ before after := by
  refine ⟨before, fun sheet ↦ ?_, nofun⟩
  rw [Array.appendList_nil]
  rfl

theorem seq (hf : Follows first c before between) (hs : Follows second c' between after) :
    Follows (do first; second) (c.andThen c') before after := by
  obtain ⟨lines, fault?⟩ := c
  obtain ⟨last, hstep, hlast⟩ := hf
  cases fault? with
  | none =>
      obtain rfl := hlast rfl
      obtain ⟨last', hstep', hlast'⟩ := hs
      refine ⟨last', fun sheet ↦ ?_, hlast'⟩
      rw [run_bind_of_ok (hstep sheet), hstep', Adds.append_lines]
      rfl
  | some fault => exact ⟨last, fun sheet ↦ run_bind_of_error (hstep sheet), nofun⟩

/-- The check of the depth passes, or is not reached. -/
theorem balanced {style : DraftStyle} {e : Expr} (h : Follows step c before (before + 1)) :
    Follows (Draft.balanced style e step) c before (before + 1) := by
  obtain ⟨lines, fault?⟩ := c
  obtain ⟨last, hstep, hlast⟩ := h
  refine ⟨last, fun sheet ↦ ?_, hlast⟩
  unfold Draft.balanced
  rw [run_bind_of_ok (run_get _)]
  cases fault? with
  | none =>
      obtain rfl := hlast rfl
      rw [run_bind_of_ok (hstep sheet), run_bind_of_ok (run_get _), if_neg (by simp)]
      rfl
  | some fault => exact run_bind_of_error (hstep sheet)

/-- A literal whose number is too long stops the draft where its remark would stand. -/
theorem long_number (style : DraftStyle) (place : Location) {n : Int} (hlong : ¬ IsShort n)
    (rest : Writing Unit) :
    Follows (do Draft.remarkOn style (.literal place (some n)); rest)
      ⟨[], some (.noText .tooLong)⟩ before after := by
  have hlabel : (Expr.literal place (some n)).label? = none := by
    rw [Expr.label?, Constant.of?_eq_none_iff.mpr hlong, Option.map_none]
  refine ⟨before, fun sheet ↦ run_bind_of_error ?_, fun hnone ↦ ?_⟩
  · rw [Draft.remarkOn, labelOf, hlabel, Array.appendList_nil]
    rfl
  · cases hnone

/-- A tree is drafted node by node in post-order. -/
theorem write {style : DraftStyle} (hliteral : style.literalPushes = none) {e : Expr}
    (he : e.Numbered) :
    Follows (Draft.write style e) (Course.ofNodes style.remarks e.postorder)
      before (before + 1) := by
  -- By the tree, for any depth to start from: the right operand starts one above the left one.
  induction e generalizing before with
  | literal place value =>
      obtain ⟨n, rfl⟩ := Option.isSome_iff_exists.mp he
      have hnodes : (Expr.literal place (some n)).postorder = [.literal place (some n)] := rfl
      unfold Draft.write
      rw [hliteral, hnodes, Course.ofNodes_singleton, Course.ofNode, Expr.gapFault?]
      refine balanced ?_
      by_cases hshort : IsShort n
      · rw [if_pos hshort]
        exact of_adds (Adds.number style place ⟨n, hshort⟩)
      · rw [if_neg hshort]
        exact long_number style place hshort _
  | negation place operand ih =>
      have htake : Adds (Draft.pop (.register .rax)) _ (before + 1) before := Adds.pop _
      have hown := htake.seq ((Adds.code .neg).seq (Adds.push (.register .rax)))
      unfold Draft.write
      rw [Expr.postorder, Course.ofNodes_append, Course.ofNodes_singleton]
      exact balanced ((ih he).seq (of_adds ((Adds.remarkOn style rfl).seq hown)))
  | binary place op left right ihl ihr =>
      unfold Draft.write
      rw [Expr.postorder, Course.ofNodes_append, Course.ofNodes_append, Course.ofNodes_singleton,
        Course.andThen_assoc]
      refine balanced ((ihl he.1).seq ((ihr he.2).seq ?_))
      cases op with
      | none => exact stop _
      | some op =>
          have htake : Adds (Draft.pop (.register .rdi)) _ (before + 1 + 1) (before + 1) :=
            Adds.pop _
          have hown := htake.seq ((Adds.pop (.register .rax)).seq
            ((Adds.codes op.instructions).seq (Adds.push (.register .rax))))
          refine of_adds (((Adds.remarkOn style rfl).seq hown).of_eq ?_)
          simp [Expr.ownCode, operationCode]
  | blank place => exact stop _
  | missing => exact stop _

end Follows

end Draft

/-- The course of the program for a tree: the code of its nodes in post-order, between the lines
that every program starts and ends with. -/
def Expr.programCourse (style : DraftStyle) (e : Expr) : Course :=
  (⟨[.notationChoice, .visible style.entry, .label style.entry], none⟩ : Course).andThen
    ((Course.ofNodes style.remarks e.postorder).andThen ⟨closingLines style.remarks, none⟩)

namespace Draft

variable {style : DraftStyle} {e : Expr}

/-- A program is written as its course says.  The check of the depth at the end passes, or is not
reached. -/
theorem apply_program (hliteral : style.literalPushes = none) (he : e.Numbered) (start : Draft) :
    ∃ d : Draft, apply (program style e) start =
        ((e.programCourse style).result.map fun _ ↦ d.lines.toList, d) ∧
      d.lines.toList = (e.programCourse style).lines := by
  have hfollows : Follows (write style e) _ 0 1 := Follows.write hliteral he
  obtain ⟨last, hwrite, hlast⟩ := hfollows
  unfold apply program Expr.programCourse
  rw [run_bind_of_ok (run_set _ _), run_bind_of_ok (Adds.opening style #[])]
  generalize Course.ofNodes style.remarks e.postorder = c at hwrite hlast
  obtain ⟨lines, fault?⟩ := c
  cases fault? with
  | none =>
      obtain rfl := hlast rfl
      rw [run_bind_of_ok (hwrite _), run_bind_of_ok (run_get _), if_neg (by simp),
        run_bind_of_ok (Adds.closing style _), run_bind_of_ok (run_get _)]
      exact ⟨_, rfl, by simp [Course.andThen]⟩
  | some fault =>
      rw [run_bind_of_error (hwrite _)]
      exact ⟨_, rfl, by simp [Course.andThen]⟩

end Draft

namespace Expr

variable {style : DraftStyle} {e : Expr}

theorem result_programCourse (style : DraftStyle) (e : Expr) :
    (e.programCourse style).result = match e.postorder.findSome? gapFault? with
      | none => .ok ()
      | some fault => .error fault := by
  have hfault := Course.fault?_ofNodes style.remarks e.postorder
  rw [← hfault]
  unfold programCourse
  obtain ⟨lines, _ | _⟩ := Course.ofNodes style.remarks e.postorder <;> rfl

/-- What becomes of a program is decided by the first gap of the tree in post-order. -/
theorem program_eq_by_gap (hliteral : style.literalPushes = none) (he : e.Numbered) :
    e.program style = match e.postorder.findSome? gapFault? with
      | none => .ok (e.programLines style.entry style.remarks)
      | some fault => .error fault := by
  cases hgap : e.postorder.findSome? gapFault? with
  | none =>
      obtain ⟨hcomplete, hshort⟩ := complete_of_findSome? he hgap
      exact program_eq_ok hliteral hcomplete hshort
  | some fault =>
      obtain ⟨d, hprogram, -⟩ := Draft.apply_program hliteral he {}
      rw [result_programCourse, hgap] at hprogram
      exact congrArg Prod.fst hprogram

/-- A tree without gaps has no program if one of its numbers is too long. -/
theorem program_eq_tooLong (hliteral : style.literalPushes = none) (he : e.Complete)
    (hlong : ¬ e.Short) : e.program style = .error (.noText .tooLong) := by
  rw [program_eq_by_gap hliteral he.numbered]
  cases hgap : e.postorder.findSome? gapFault? with
  | none => exact absurd (complete_of_findSome? he.numbered hgap).2 hlong
  | some fault =>
      obtain ⟨part, hpart, hnode⟩ := List.exists_of_findSome?_eq_some hgap
      rw [(he.of_mem_postorder part hpart).eq_of_gapFault? hnode]

theorem eq_of_gapFault? {fault : DraftFault} (h : e.gapFault? = some fault) :
    (∃ textFault, fault = .noText textFault) ∨ fault = .noCode "Expression" ∨
      fault = .noCode "NoneType" := by
  match e with
  | .literal _ (some n) =>
      rw [gapFault?] at h
      split at h <;> cases h
      exact .inl ⟨_, rfl⟩
  | .binary _ none .. => cases h; exact .inl ⟨_, rfl⟩
  | .blank _ => cases h; exact .inr (.inl rfl)
  | .missing => cases h; exact .inr (.inr rfl)

/-- No check of the depth is among the reasons for a failure. -/
theorem eq_of_program_eq_error (hliteral : style.literalPushes = none) (he : e.Numbered)
    {fault : DraftFault} (h : e.program style = .error fault) :
    (∃ textFault, fault = .noText textFault) ∨ fault = .noCode "Expression" ∨
      fault = .noCode "NoneType" := by
  rw [program_eq_by_gap hliteral he] at h
  cases hgap : e.postorder.findSome? gapFault? with
  | none => rw [hgap] at h; cases h
  | some first =>
      obtain ⟨node, -, hnode⟩ := List.exists_of_findSome?_eq_some hgap
      rw [hgap] at h
      cases h
      exact eq_of_gapFault? hnode

end Expr

/-- A program fails at the first node in post-order that is a gap or a number too long to be
written, and by nothing else: its checks of the depth pass wherever they are reached.  The draft may
stop anywhere.  Every draft that it passes through on the way there has a line more than the one
before, and counts its pushes less its pops. -/
theorem Compilation.result_assemble_by_gap {e : Expr} (he : e.Numbered) (entry : String)
    (remarks : Bool) :
    let style : DraftStyle := { entry, remarks }
    ((assemble style e).result = match e.postorder.findSome? Expr.gapFault? with
      | none => .ok (e.programLines entry remarks)
      | some fault => .error fault.failure) ∧
    (∀ target, e.program style ≠ .error (.emptyStack target)) ∧
    (∀ node change, e.program style ≠ .error (.unbalanced node change)) ∧
    (∀ depth, e.program style ≠ .error (.leftover depth)) ∧
    ∀ start, let written := (Draft.apply (Draft.program style e) start).2.lines.toList
      written = (e.programCourse style).lines ∧
      (Draft.trail style e start).map (fun d ↦ d.lines.toList) = written.inits ∧
      ∀ d ∈ Draft.trail style e start,
        (d.depth : Int) = depthOf (instructionsOf d.lines.toList) := by
  intro style
  have hliteral : style.literalPushes = none := rfl
  have herror : ∀ fault, e.program style = .error fault → _ :=
    fun _ ↦ Expr.eq_of_program_eq_error hliteral he
  refine ⟨?_, fun target h ↦ ?_, fun node change h ↦ ?_, fun depth h ↦ ?_, fun start ↦ ?_⟩
  · unfold assemble
    rw [Expr.program_eq_by_gap hliteral he]
    cases e.postorder.findSome? Expr.gapFault? <;> rfl
  · simpa using herror _ h
  · simpa using herror _ h
  · simpa using herror _ h
  · obtain ⟨d, hd, hlines⟩ := Draft.apply_program hliteral he start
    obtain ⟨htrail, hcounted⟩ := Draft.trail_program style e start
    refine ⟨?_, htrail, hcounted⟩
    rw [hd]
    exact hlines

/-- In `1 + (2 ? blank)` with an operation that lacks its operator, the blank node comes first. -/
theorem Compilation.result_assemble_by_gap_half_way :
    let place : Location := ⟨"<test>", 1, 1⟩
    let gap : Expr := .binary place none (.literal place (some 2)) (.blank place)
    let e : Expr := .binary place (some .add) (.literal place (some 1)) gap
    let style : DraftStyle := { entry := "main", remarks := false }
    e.Numbered ∧
    (assemble style e).result =
      .error (.drafting { message := "cannot generate code for Expression" }) ∧
    (Draft.trail style e {}).length = 6 := by
  intro place gap e style
  have he : e.Numbered := ⟨rfl, rfl, trivial⟩
  obtain ⟨hresult, -, -, -, hdraft⟩ := result_assemble_by_gap he "main" false
  obtain ⟨hlines, htrail, -⟩ := hdraft {}
  have hlength := congrArg List.length htrail
  rw [hlines, List.length_map] at hlength
  exact ⟨he, hresult, hlength⟩

/-- A tree of one literal has no gap, but there is no program for it if its number is too long. -/
theorem Compilation.result_assemble_of_long_literal :
    let e : Expr := .literal default (some leastLong)
    e.Complete ∧ ∀ lines, (assemble {} e).result ≠ .ok lines := by
  intro e
  have he : e.Complete := rfl
  have hlong : ¬ e.Short := fun hshort ↦ not_isShort_leastLong (hshort _ rfl)
  refine ⟨he, fun lines ↦ ?_⟩
  rw [assemble, Expr.program_eq_tooLong rfl he hlong]
  intro hok
  cases hok

end ArithAsm
