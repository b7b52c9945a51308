import ArithAsm.Compilation
import ArithAsm.Proofs.Assembly.Drafting
import ArithAsm.Proofs.Expr.Drawing

/-!
# Sheets used again

A generator and a printer keep their sheet between two calls, and a call that fails leaves it as far
as it came.  The next call takes a clean sheet all the same, so nothing of the calls before it can
be told from its outcome.
-/

namespace ArithAsm

open Attempt

section Calls

variable {σ ι β : Type} {call : ι → StateM σ β}

/-- The outcome of a call that comes after earlier ones, and the state behind it. -/
def callAfter (call : ι → StateM σ β) (fresh : σ) (earlier : List ι) (next : ι) : β × σ :=
  StateT.run (do discard (earlier.mapM call); call next) fresh

/-- No call sees the state that it finds. -/
def Forgetful (call : ι → StateM σ β) : Prop :=
  ∀ input s s', (call input).run s = (call input).run s'

theorem Forgetful.callAfter_eq (h : Forgetful call) (fresh : σ) (earlier : List ι) (next : ι) :
    callAfter call fresh earlier next = callAfter call fresh [] next := by
  have hlast : ∀ earlier, callAfter call fresh earlier next = (call next).run fresh := by
    intro earlier
    rw [callAfter, StateT.run_bind]
    exact h next _ fresh
  rw [hlast, hlast]

end Calls

namespace Draft

/-- A call of a generator, whose settings may be others at each call. -/
def generate (order : DraftStyle × Expr) : StateM Draft (Except Failure String) := do
  let outcome ← (program order.1 order.2 : Writing (List Line)).run
  return (outcome.mapError DraftFault.failure).map programText

theorem apply_program_congr (style : DraftStyle) (e : Expr) (d d' : Draft) :
    apply (program style e) d = apply (program style e) d' := by
  unfold apply program
  rw [run_bind_of_ok (run_set _ d), run_bind_of_ok (run_set _ d')]

theorem forgetful_generate : Forgetful generate := by
  intro order d d'
  have hprogram : (program order.1 order.2 : Writing (List Line)).run.run d =
      (program order.1 order.2 : Writing (List Line)).run.run d' :=
    apply_program_congr order.1 order.2 d d'
  rw [generate, StateT.run_bind, StateT.run_bind, hprogram]

theorem outcome_generate (style : DraftStyle) (e : Expr) :
    ((generate (style, e)).run {}).1 = (Compilation.assemble style e).result.map programText := by
  change ((e.program style).mapError DraftFault.failure).map programText = _
  rw [Compilation.assemble]
  cases e.program style <;> rfl

end Draft

theorem Outline.forgetful_print : Forgetful fun e ↦ (print e).run := by
  intro e o o'
  have hprint : ∀ o, (print e).run.run o = _ := fun o ↦
    run_bind_of_ok (run_set _ o)
  exact (hprint o).trans (hprint o').symm

theorem Diagram.forgetful_print : Forgetful fun e ↦ (print e).run := by
  intro e d d'
  have hprint : ∀ d, (print e).run.run d = _ := fun d ↦
    run_bind_of_ok (run_set _ d)
  exact (hprint d).trans (hprint d').symm

/-- A call ends as the first call on a new object would, whatever was called on its own before. -/
theorem Compilation.calls_independent :
    (∀ (earlier : List (DraftStyle × Expr)) (style : DraftStyle) (e : Expr),
      callAfter Draft.generate {} earlier (style, e) = callAfter Draft.generate {} [] (style, e) ∧
      (callAfter Draft.generate {} earlier (style, e)).1 =
        (assemble style e).result.map programText) ∧
    (∀ (earlier : List Expr) (e : Expr),
      callAfter (fun e ↦ (Outline.print e).run) {} earlier e =
        callAfter (fun e ↦ (Outline.print e).run) {} [] e ∧
      (callAfter (fun e ↦ (Outline.print e).run) {} earlier e).1 = e.outline) ∧
    (∀ (earlier : List Expr) (e : Expr),
      callAfter (fun e ↦ (Diagram.print e).run) {} earlier e =
        callAfter (fun e ↦ (Diagram.print e).run) {} [] e ∧
      (callAfter (fun e ↦ (Diagram.print e).run) {} earlier e).1 = e.diagram) := by
  refine ⟨fun earlier style e ↦ ?generator, fun earlier e ↦ ?outline, fun earlier e ↦ ?diagram⟩
  case generator =>
    have h := Draft.forgetful_generate.callAfter_eq {} earlier (style, e)
    exact ⟨h, h ▸ Draft.outcome_generate style e⟩
  case outline =>
    have h := Outline.forgetful_print.callAfter_eq {} earlier e
    exact ⟨h, h ▸ rfl⟩
  case diagram =>
    have h := Diagram.forgetful_print.callAfter_eq {} earlier e
    exact ⟨h, h ▸ rfl⟩

/-- A print that fails below the root leaves the level raised, but the next one starts at zero. -/
example :
    let half : Expr := .negation default (.binary default none .missing .missing)
    ((Outline.print half).run.run {}).2.level = 1 ∧
      (callAfter (fun e ↦ (Outline.print e).run) {} [half] (.blank default)).1 =
        .ok "Expression" :=
  ⟨rfl, rfl⟩

end ArithAsm
