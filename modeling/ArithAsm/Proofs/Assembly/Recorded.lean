import ArithAsm.Assembly.OfExpr
import ArithAsm.Proofs.Assembly.Drafting
import ArithAsm.Proofs.Assembly.Frame
import ArithAsm.Proofs.Attempts
import Mathlib.Data.List.Infix
import Mathlib.Logic.Relation

/-!
# Drafting on record

A program can be drafted in a place that keeps every draft which is ever written there.  It ends
there as it does elsewhere, for no step looks at more than the draft at hand.  Whatever the tree and
the style, each draft on record has one line more than the one before it, and a depth that differs
by what this line pushes or pops.
-/

namespace ArithAsm

open Attempt

/-- A draft, and all drafts that were written up to it. -/
structure DraftRecord where
  now : Draft
  trail : List Draft
deriving Inhabited

namespace DraftRecord

def become (r : DraftRecord) (d : Draft) : DraftRecord :=
  ⟨d, r.trail ++ [d]⟩

/-- A draft goes on record. -/
def Emits (r r' : DraftRecord) : Prop :=
  ∃ (l : Line) (depth : Nat), (depth : Int) = r.now.depth + depthOf (instructionsOf [l]) ∧
    r' = r.become ⟨r.now.lines.push l, depth⟩

end DraftRecord

namespace Draft

/-- A place that keeps its drafts on record. -/
abbrev Recording := ExceptT DraftFault (StateM DraftRecord)

instance : MonadStateOf Draft Recording where
  get := do return (← getThe DraftRecord).now
  set d := modifyThe DraftRecord fun r ↦ r.become d
  modifyGet f := modifyGetThe DraftRecord fun r ↦ ((f r.now).1, r.become (f r.now).2)

/-- A step on record ends as the same step elsewhere, and it goes on line by line. -/
structure OnRecord {α : Type} (recorded : Recording α) (step : Writing α) : Prop where
  same : ∀ r, Prod.map id DraftRecord.now (recorded.run.run r) = step.run.run r.now
  emits : ∀ r, Relation.ReflTransGen DraftRecord.Emits r (recorded.run.run r).2

namespace OnRecord

variable {α β : Type} {recorded : Recording α} {step : Writing α}
  {next : α → Recording β} {next' : α → Writing β}

theorem pure (a : α) : OnRecord (pure a) (pure a) :=
  ⟨fun _ ↦ rfl, fun _ ↦ .refl⟩

theorem throw (fault : DraftFault) : OnRecord (throw fault : Recording α) (throw fault) :=
  ⟨fun _ ↦ rfl, fun _ ↦ .refl⟩

theorem get : OnRecord (get : Recording Draft) get :=
  ⟨fun _ ↦ rfl, fun _ ↦ .refl⟩

theorem bind (h : OnRecord recorded step) (hnext : ∀ a, OnRecord (next a) (next' a)) :
    OnRecord (recorded >>= next) (step >>= next') := by
  refine ⟨fun r ↦ ?_, fun r ↦ ?_⟩
  · have hsame := h.same r
    rw [run_bind, run_bind, ← hsame]
    obtain ⟨result, between⟩ := recorded.run.run r
    cases result with
    | ok a => exact (hnext a).same between
    | error fault => rfl
  · have hemits := h.emits r
    rw [run_bind]
    rcases hrun : recorded.run.run r with ⟨result, between⟩
    rw [hrun] at hemits
    cases result with
    | ok a => exact hemits.trans ((hnext a).emits between)
    | error fault => exact hemits

/-! ## Single steps -/

theorem line {l : Line} (hl : depthOf (instructionsOf [l]) = 0) :
    OnRecord (Draft.line l) (Draft.line l) :=
  ⟨fun _ ↦ rfl, fun r ↦ .single ⟨l, r.now.depth, by rw [hl, Int.add_zero], rfl⟩⟩

theorem code {i : Instruction} (hi : i.depthChange = 0) :
    OnRecord (Draft.code i) (Draft.code i) :=
  line (by simp [instructionsOf, hi])

theorem remark (style : DraftStyle) (text : String) :
    OnRecord (Draft.remark style text) (Draft.remark style text) := by
  unfold Draft.remark
  cases style.remarks with
  | true => exact line rfl
  | false => exact pure ()

theorem push (operand : Operand) : OnRecord (Draft.push operand) (Draft.push operand) :=
  ⟨fun _ ↦ rfl, fun r ↦ .single ⟨.code (.push operand), r.now.depth + 1, rfl, rfl⟩⟩

/-- Where the stack is empty nothing is popped, so no depth is ever too small to be counted. -/
theorem pop (target : Operand) : OnRecord (Draft.pop target) (Draft.pop target) := by
  refine ⟨fun r ↦ ?_, fun r ↦ ?_⟩
  · obtain ⟨⟨lines, depth⟩, trail⟩ := r
    cases depth <;> rfl
  · obtain ⟨⟨lines, depth⟩, trail⟩ := r
    cases depth with
    | zero => exact .refl
    | succ depth =>
        refine .single ⟨.code (.pop target), depth, ?_, rfl⟩
        have hchange : depthOf (instructionsOf [.code (.pop target)]) = -1 := rfl
        dsimp only
        rw [hchange]
        omega

theorem labelOf (e : Expr) : OnRecord (Draft.labelOf e) (Draft.labelOf e) := by
  unfold Draft.labelOf
  cases e.label? with
  | some label => exact pure label
  | none => exact throw _

theorem constant (n : Int) : OnRecord (Draft.constant n) (Draft.constant n) := by
  unfold Draft.constant
  cases Constant.of? n with
  | some c => exact pure c
  | none => exact throw _

theorem remarkOn (style : DraftStyle) (e : Expr) :
    OnRecord (Draft.remarkOn style e) (Draft.remarkOn style e) :=
  (labelOf e).bind fun label ↦ remark style label

theorem literal (c : Constant) : OnRecord (Draft.literal c) (Draft.literal c) := by
  unfold Draft.literal
  split
  · exact push (.immediate c)
  · exact (code rfl).bind fun _ ↦ push (.register .rax)

theorem pushValue (value : Option Int) :
    OnRecord (Draft.pushValue value) (Draft.pushValue value) := by
  cases value with
  | some n => exact (constant n).bind fun c ↦ push (.immediate c)
  | none => exact push _

theorem forM {first : α → Recording Unit} {second : α → Writing Unit} {items : List α}
    (h : ∀ item ∈ items, OnRecord (first item) (second item)) :
    OnRecord (items.forM first) (items.forM second) := by
  induction items with
  | nil => exact pure ()
  | cons item rest ih =>
      obtain ⟨hitem, hrest⟩ := List.forall_mem_cons.mp h
      exact hitem.bind fun _ ↦ ih hrest

theorem balanced {style : DraftStyle} {e : Expr} {recorded : Recording Unit} {step : Writing Unit}
    (h : OnRecord recorded step) :
    OnRecord (Draft.balanced style e recorded) (Draft.balanced style e step) := by
  refine get.bind fun before ↦ h.bind fun _ ↦ get.bind fun after ↦ ?_
  dsimp only
  split
  · exact (labelOf e).bind fun _ ↦ throw _
  · exact pure ()

/-! ## Trees -/

/-- Every step that drafts a tree goes line by line, wherever it may stop. -/
theorem write (style : DraftStyle) (e : Expr) :
    OnRecord (Draft.write style e) (Draft.write style e) := by
  induction e with
  | literal place value =>
      refine balanced ?_
      cases style.literalPushes with
      | some count => exact forM fun item _ ↦ pushValue item
      | none =>
          cases value with
          | some n => exact (remarkOn style _).bind fun _ ↦ (constant n).bind fun c ↦ literal c
          | none => exact (remarkOn style _).bind fun _ ↦ throw _
  | negation place operand ih =>
      exact balanced (ih.bind fun _ ↦ (remarkOn style _).bind fun _ ↦
        (pop (.register .rax)).bind fun _ ↦ (code rfl).bind fun _ ↦ push (.register .rax))
  | binary place op left right ihl ihr =>
      refine balanced (ihl.bind fun _ ↦ ihr.bind fun _ ↦ ?_)
      cases op with
      | none => exact throw _
      | some op =>
          have hfree : ∀ i ∈ op.instructions, i.depthChange = 0 := by
            cases op <;> decide
          exact (remarkOn style _).bind fun _ ↦ (pop (.register .rdi)).bind fun _ ↦
            (pop (.register .rax)).bind fun _ ↦
              (forM fun i hi ↦ code (hfree i hi)).bind fun _ ↦ push (.register .rax)
  | blank place => exact throw _
  | missing => exact throw _

theorem opening (style : DraftStyle) : OnRecord (Draft.opening style) (Draft.opening style) :=
  (line rfl).bind fun _ ↦ (line rfl).bind fun _ ↦ line rfl

theorem closing (style : DraftStyle) : OnRecord (Draft.closing style) (Draft.closing style) :=
  (remark style _).bind fun _ ↦ (pop (.register .rax)).bind fun _ ↦ code rfl

/-- What starts on a clean sheet goes on line by line from there. -/
theorem run_clean {rest : PUnit → Recording α} {rest' : PUnit → Writing α}
    (h : ∀ u, OnRecord (rest u) (rest' u)) (r : DraftRecord) :
    let recorded := ((set ({} : Draft) : Recording PUnit) >>= rest).run.run r
    let plain := ((set ({} : Draft) : Writing PUnit) >>= rest').run.run r.now
    Prod.map id DraftRecord.now recorded = plain ∧
      Relation.ReflTransGen DraftRecord.Emits (r.become {}) recorded.2 := by
  have hclean : (set ({} : Draft) : Recording PUnit).run.run r = (.ok ⟨⟩, r.become {}) := rfl
  dsimp only
  rw [run_bind_of_ok hclean, run_bind_of_ok (run_set _ _)]
  exact ⟨(h ⟨⟩).same _, (h ⟨⟩).emits _⟩

theorem run_program (style : DraftStyle) (e : Expr) (r : DraftRecord) :
    let recorded := (program style e : Recording (List Line)).run.run r
    Prod.map id DraftRecord.now recorded = apply (program style e) r.now ∧
      Relation.ReflTransGen DraftRecord.Emits (r.become {}) recorded.2 := by
  refine run_clean (fun _ ↦ ?_) r
  refine (opening style).bind fun _ ↦ (write style e).bind fun _ ↦ get.bind fun d ↦ ?_
  dsimp only
  split
  · exact (throw _).bind fun _ ↦ (closing style).bind fun _ ↦ get.bind fun d ↦ pure _
  · exact (closing style).bind fun _ ↦ get.bind fun d ↦ pure _

end OnRecord

end Draft

/-! ## What is on record -/

/-- The depth of a draft is that of the instructions on it. -/
def Draft.IsCounted (d : Draft) : Prop :=
  (d.depth : Int) = depthOf (instructionsOf d.lines.toList)

namespace DraftRecord

/-- All drafts on record are counted, and they show the lines of the last one as they came. -/
structure Sound (r : DraftRecord) : Prop where
  lines : r.trail.map (fun d ↦ d.lines.toList) = r.now.lines.toList.inits
  counted : r.now.IsCounted
  trail_counted : ∀ d ∈ r.trail, d.IsCounted

theorem sound_clean : Sound ⟨{}, [{}]⟩ :=
  ⟨rfl, rfl, List.forall_mem_singleton.mpr rfl⟩

/-- A step: one more line keeps the depth at the pushes less the pops. -/
theorem Sound.emits {r r' : DraftRecord} (h : r.Sound) (hstep : r.Emits r') : r'.Sound := by
  obtain ⟨l, depth, hdepth, rfl⟩ := hstep
  have hcounted : Draft.IsCounted ⟨r.now.lines.push l, depth⟩ := by
    have hnow := h.counted
    unfold Draft.IsCounted at hnow ⊢
    rw [Array.toList_push, instructionsOf_append, depthOf_append, ← hnow, hdepth]
  refine ⟨?_, hcounted, List.forall_mem_append.mpr
    ⟨h.trail_counted, List.forall_mem_singleton.mpr hcounted⟩⟩
  rw [become, List.map_append, h.lines, Array.toList_push, List.inits_append]
  simp

/-- A run: what holds of a clean sheet holds of all that is written on it. -/
theorem Sound.of_reflTransGen {r r' : DraftRecord} (h : r.Sound)
    (hrun : Relation.ReflTransGen Emits r r') : r'.Sound := by
  induction hrun with
  | refl => exact h
  | tail _ hstep ih => exact ih.emits hstep

end DraftRecord

/-- All drafts that a program passes through, from a clean sheet to where it ends. -/
def Draft.trail (style : DraftStyle) (e : Expr) (start : Draft) : List Draft :=
  ((program style e : Recording (List Line)).run.run ⟨start, []⟩).2.trail

/-- Whatever the tree, the drafts on the way to its program, or to the fault that stops it, show its
lines one by one, and each of them counts its pushes less its pops. -/
theorem Draft.trail_program (style : DraftStyle) (e : Expr) (start : Draft) :
    (trail style e start).map (fun d ↦ d.lines.toList) =
        (apply (program style e) start).2.lines.toList.inits ∧
      ∀ d ∈ trail style e start, d.IsCounted := by
  obtain ⟨hsame, hrun⟩ := OnRecord.run_program style e ⟨start, []⟩
  have hsound := DraftRecord.sound_clean.of_reflTransGen hrun
  exact ⟨congrArg Prod.snd hsame ▸ hsound.lines, hsound.trail_counted⟩

end ArithAsm
