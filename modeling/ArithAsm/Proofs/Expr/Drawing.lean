import ArithAsm.Expr.Diagram
import ArithAsm.Expr.Outline
import ArithAsm.Proofs.Attempts
import ArithAsm.Proofs.Expr.Labels
import ArithAsm.Proofs.Text.Plain

/-!
# Drawings of trees

The lines of an outline and of a diagram, node by node.  A tree whose nodes all have labels can be
drawn either way.  Otherwise both drawings fail at the first node in pre-order that has none.
-/

namespace ArithAsm

open Attempt

theorem append_append_list {α : Type} (xs : Array α) (first second : List α) :
    xs ++ first ++ second = xs ++ (first ++ second) :=
  Array.ext' (by simp)

/-! ## Outlines -/

def Expr.outlineLine (level : Nat) (e : Expr) : String :=
  String.ofList (List.replicate (2 * level) ' ') ++ e.label?.getD ""

/-- The nodes in pre-order, each on a line of its own. -/
def Expr.outlineLines (level : Nat) : Expr → List String
  | e@(.negation _ operand) => e.outlineLine level :: operand.outlineLines (level + 1)
  | e@(.binary _ _ left right) =>
      e.outlineLine level :: (left.outlineLines (level + 1) ++ right.outlineLines (level + 1))
  | e => [e.outlineLine level]

namespace Outline

variable {e : Expr}

theorem run_entry (he : e.Labelled) (o : Outline) :
    (entry e).run.run o = (.ok (), { o with lines := o.lines.push (e.outlineLine o.level) }) := by
  unfold entry
  rw [he.label?_eq_some]
  rfl

theorem run_nested {step : Writing Unit} {o : Outline} {lines : List String}
    (h : step.run.run { o with level := o.level + 1 } =
      (.ok (), { lines := o.lines ++ lines, level := o.level + 1 })) :
    (nested step).run.run o = (.ok (), { o with lines := o.lines ++ lines }) := by
  have hdown : (modify fun o ↦ { o with level := o.level + 1 } : Writing Unit).run.run o =
      (.ok (), { o with level := o.level + 1 }) := rfl
  unfold nested
  rw [run_bind_of_ok hdown, run_bind_of_ok h]
  rfl

theorem run_write (he : e.Labelled) (o : Outline) :
    (write e).run.run o =
      (.ok (), { o with lines := o.lines ++ e.outlineLines o.level }) := by
  induction e generalizing o with
  | negation place operand ih =>
      unfold write
      rw [run_bind_of_ok (run_entry he o), run_nested (ih he.operand _), Expr.outlineLines,
        Array.appendList_cons]
  | binary place op left right ihl ihr =>
      unfold write
      rw [run_bind_of_ok (run_entry he o), Expr.outlineLines, Array.appendList_cons]
      -- Both operands are written one level down, from which each returns to this level.
      refine run_nested ?_
      rw [run_bind_of_ok (ihl he.left _), ihr he.right, append_append_list]
  | _ =>
      unfold write
      rw [run_entry he o]
      simp [Expr.outlineLines]

/-- Whatever was written before, a tree is written anew, and then the level is zero. -/
theorem run_print (he : e.Labelled) (o : Outline) :
    (print e).run.run o = (.ok ("\n".intercalate (e.outlineLines 0)),
      { lines := (e.outlineLines 0).toArray, level := 0 }) := by
  unfold print
  rw [run_bind_of_ok (run_set _ o), run_bind_of_ok (run_write he _)]
  have hlines : (#[] : Array String) ++ e.outlineLines 0 = (e.outlineLines 0).toArray := by simp
  change (.ok (text { lines := #[] ++ e.outlineLines 0, level := 0 }),
    ({ lines := #[] ++ e.outlineLines 0, level := 0 } : Outline)) =
      (_ : Except TextFault String × Outline)
  rw [hlines, text]

theorem outline_eq (he : e.Labelled) :
    e.outline = .ok ("\n".intercalate (e.outlineLines 0)) :=
  congrArg Prod.fst (run_print he {})

theorem ends_entry (e : Expr) : Ends (entry e) e.labelFault? := by
  unfold entry Expr.labelFault?
  cases e.label? with
  | some label => exact Ends.modify _
  | none => exact Ends.throw _

theorem ends_nested {step : Writing Unit} {fault? : Option TextFault} (h : Ends step fault?) :
    Ends (nested step) fault? := by
  have hends : Ends (nested step) (none.or (fault?.or none)) :=
    (Ends.modify _).bind fun _ ↦ h.bind fun _ ↦ Ends.modify _
  rwa [Option.none_or, Option.or_none] at hends

theorem ends_write (e : Expr) : Ends (write e) (e.nodes.findSome? Expr.labelFault?) := by
  induction e with
  | negation place operand ih =>
      unfold write
      rw [Expr.nodes, Expr.findSome?_labelFault?_cons]
      exact (ends_entry _).bind fun _ ↦ ends_nested ih
  | binary place op left right ihl ihr =>
      unfold write
      rw [Expr.nodes, Expr.findSome?_labelFault?_cons, List.findSome?_append]
      exact (ends_entry _).bind fun _ ↦ ends_nested (ihl.bind fun _ ↦ ihr)
  | _ => simpa [write, Expr.nodes] using ends_entry _

/-- An outline fails at the first node in pre-order that has no label. -/
theorem run_print_eq_error {fault : TextFault}
    (h : e.nodes.findSome? Expr.labelFault? = some fault) (o : Outline) :
    ((print e).run.run o).1 = .error fault := by
  have hends : Ends (print e) (none.or ((some fault).or none)) :=
    (Ends.set _).bind fun _ ↦ (h ▸ ends_write e).bind fun _ ↦ Ends.get.bind fun _ ↦ Ends.pure _
  exact hends.fst_run_eq_error o

theorem labelled_of_outline {text : String} (h : e.outline = .ok text) : e.Labelled := by
  cases hfault : e.nodes.findSome? Expr.labelFault? with
  | none => exact Expr.findSome?_labelFault?_eq_none_iff.mp hfault
  | some fault => exact absurd ((run_print_eq_error hfault {}).symm.trans h) nofun

end Outline

/-! ## Diagrams -/

def Expr.diagramNode (number : Nat) (e : Expr) : String :=
  let label := e.label?.getD ""
  s!"  {number} [label=\"{label}\"];"

def diagramEdge (parent child : Nat) : String :=
  s!"  {parent} -> {child};"

/-- The nodes in pre-order, numbered on from a number, each after the edge that leads to it. -/
def Expr.diagramLines (number : Nat) : Expr → List String
  | e@(.negation _ operand) =>
      e.diagramNode number :: diagramEdge number (number + 1) :: operand.diagramLines (number + 1)
  | e@(.binary _ _ left right) =>
      let behind := number + 1 + left.nodes.length
      e.diagramNode number :: diagramEdge number (number + 1) ::
        (left.diagramLines (number + 1) ++ diagramEdge number behind :: right.diagramLines behind)
  | e => [e.diagramNode number]

namespace Diagram

variable {e : Expr}

theorem run_node (he : e.Labelled) (d : Diagram) :
    (node e).run.run d =
      (.ok d.next, { lines := d.lines.push (e.diagramNode d.next), next := d.next + 1 }) := by
  unfold node
  rw [he.label?_eq_some]
  rfl

theorem run_edge (parent : Nat) (d : Diagram) :
    (edge parent).run.run d =
      (.ok (), { d with lines := d.lines.push (diagramEdge parent d.next) }) := rfl

theorem run_discard {step : Writing Nat} {d d' : Diagram} {number : Nat}
    (h : step.run.run d = (.ok number, d')) :
    (discard step).run.run d = (.ok PUnit.unit, d') := by
  change (step >>= fun _ ↦ pure PUnit.unit).run.run d = _
  rw [run_bind_of_ok h]
  rfl

theorem run_write (he : e.Labelled) (d : Diagram) :
    (write e).run.run d = (.ok d.next,
      { lines := d.lines ++ e.diagramLines d.next, next := d.next + e.nodes.length }) := by
  induction e generalizing d with
  | negation place operand ih =>
      unfold write
      rw [run_bind_of_ok (run_node he d), run_bind_of_ok (run_edge _ _),
        run_bind_of_ok (run_discard (ih he.operand _)), Expr.diagramLines, Expr.nodes,
        Array.appendList_cons, Array.appendList_cons, List.length_cons,
        Nat.add_comm operand.nodes.length, ← Nat.add_assoc]
      rfl
  | binary place op left right ihl ihr =>
      unfold write
      rw [run_bind_of_ok (run_node he d), run_bind_of_ok (run_edge _ _),
        run_bind_of_ok (run_discard (ihl he.left _)),
        run_bind_of_ok (run_edge _ _),
        run_bind_of_ok (run_discard (ihr he.right _)), Expr.diagramLines, Expr.nodes]
      dsimp only
      -- The right operand is numbered on from where the left one has stopped.
      have hnext : d.next + 1 + left.nodes.length + right.nodes.length =
          d.next + (left.nodes.length + right.nodes.length + 1) := by omega
      rw [Array.appendList_cons, Array.appendList_cons, ← append_append_list,
        Array.appendList_cons, List.length_cons, List.length_append, hnext]
      rfl
  | _ =>
      unfold write
      rw [run_node he d]
      simp [Expr.diagramLines, Expr.nodes]

/-- The lines of a whole graph. -/
def graphLines (e : Expr) : List String :=
  "digraph G \x7b" :: (e.diagramLines 0 ++ ["\x7d"])

/-- Whatever was drawn before, a tree is drawn anew. -/
theorem run_print (he : e.Labelled) (d : Diagram) :
    ((print e).run.run d).1 = .ok ("\n".intercalate (graphLines e)) := by
  unfold print
  rw [run_bind_of_ok (run_set _ _), run_bind_of_ok (run_discard (run_write he _))]
  change .ok (text ⟨(#["digraph G \x7b"] ++ e.diagramLines 0).push "\x7d", _⟩) =
    (_ : Except TextFault String)
  rw [text]
  simp [graphLines]

theorem diagram_eq (he : e.Labelled) : e.diagram = .ok ("\n".intercalate (graphLines e)) :=
  run_print he {}

theorem ends_node (e : Expr) : Ends (node e) e.labelFault? := by
  unfold node Expr.labelFault?
  cases e.label? with
  | some label => exact fun d ↦ ⟨_, _, rfl⟩
  | none => exact fun d ↦ ⟨_, rfl⟩

theorem ends_edge (parent : Nat) : Ends (edge parent) none :=
  fun d ↦ ⟨_, _, run_edge parent d⟩

theorem ends_discard {step : Writing Nat} {fault? : Option TextFault} (h : Ends step fault?) :
    Ends (discard step) fault? := by
  have hends : Ends (discard step) (fault?.or none) := h.bind fun _ ↦ Ends.pure PUnit.unit
  rwa [Option.or_none] at hends

theorem ends_write (e : Expr) : Ends (write e) (e.nodes.findSome? Expr.labelFault?) := by
  induction e with
  | negation place operand ih =>
      have hends := (ends_node (.negation place operand)).bind fun number ↦
        (ends_edge number).bind fun _ ↦ (ends_discard ih).bind fun _ ↦ Ends.pure number
      unfold write
      simpa [Expr.nodes, Expr.findSome?_labelFault?_cons] using hends
  | binary place op left right ihl ihr =>
      have hends := (ends_node (.binary place op left right)).bind fun number ↦
        (ends_edge number).bind fun _ ↦ (ends_discard ihl).bind fun _ ↦
          (ends_edge number).bind fun _ ↦ (ends_discard ihr).bind fun _ ↦ Ends.pure number
      unfold write
      simpa [Expr.nodes, Expr.findSome?_labelFault?_cons, List.findSome?_append] using hends
  | _ => simpa [write, Expr.nodes] using ends_node _

/-- A diagram fails at the first node in pre-order that has no label. -/
theorem run_print_eq_error {fault : TextFault}
    (h : e.nodes.findSome? Expr.labelFault? = some fault) (d : Diagram) :
    ((print e).run.run d).1 = .error fault := by
  have hends : Ends (print e) (none.or ((some fault).or (none.or none))) :=
    (Ends.set _).bind fun _ ↦ (ends_discard (h ▸ ends_write e)).bind fun _ ↦
      (Ends.modify _).bind fun _ ↦ Ends.get.bind fun _ ↦ Ends.pure _
  exact hends.fst_run_eq_error d

theorem labelled_of_diagram {text : String} (h : e.diagram = .ok text) : e.Labelled := by
  cases hfault : e.nodes.findSome? Expr.labelFault? with
  | none => exact Expr.findSome?_labelFault?_eq_none_iff.mp hfault
  | some fault => exact absurd ((run_print_eq_error hfault {}).symm.trans h) nofun

end Diagram

/-! ## Texts of drawings -/

open Text

theorem Expr.isPlain_label (e : Expr) : IsPlain (e.label?.getD "") := by
  have hclose : IsPlain ")" := by decide
  have hempty : IsPlain "" := by decide
  cases e with
  | literal place value =>
      have hopen : IsPlain "Literal(" := by decide
      cases value with
      | none => exact (by decide : IsPlain "Literal(None)")
      | some n =>
          rw [label?]
          cases Constant.of? n with
          | none => exact hempty
          | some c => exact (hopen.append (isPlain_toString_int c.value)).append hclose
  | binary place op left right =>
      have hopen : IsPlain "BinaryOp(" := by decide
      rcases op with _ | op
      · exact hempty
      · have hname : IsPlain op.name := by cases op <;> decide
        exact (hopen.append hname).append hclose
  | negation place operand => exact (by decide : IsPlain "UnaryMinus")
  | blank place => exact (by decide : IsPlain "Expression")
  | missing => exact (by decide : IsPlain "NoneType")

theorem Expr.isPlain_outlineLine (level : Nat) (e : Expr) : IsPlain (e.outlineLine level) := by
  refine IsPlain.append (isPlain_iff.mpr fun c hc ↦ ?_) e.isPlain_label
  rw [String.toList_ofList] at hc
  obtain rfl := List.eq_of_mem_replicate hc
  decide

theorem Expr.isPlain_of_mem_outlineLines {e : Expr} {level : Nat} :
    ∀ line ∈ e.outlineLines level, IsPlain line := by
  induction e generalizing level with
  | negation place operand ih => exact List.forall_mem_cons.mpr ⟨isPlain_outlineLine _ _, ih⟩
  | binary place op left right ihl ihr =>
      exact List.forall_mem_cons.mpr
        ⟨isPlain_outlineLine _ _, List.forall_mem_append.mpr ⟨ihl, ihr⟩⟩
  | _ => exact List.forall_mem_singleton.mpr (isPlain_outlineLine _ _)

theorem Expr.isPlain_of_mem_diagramLines {e : Expr} {number : Nat} :
    ∀ line ∈ e.diagramLines number, IsPlain line := by
  have hindent : IsPlain "  " := by decide
  have harrow : IsPlain " -> " := by decide
  have hend : IsPlain ";" := by decide
  have hopen : IsPlain " [label=\"" := by decide
  have hclose : IsPlain "\"];" := by decide
  have hnode : ∀ number (e : Expr), IsPlain (e.diagramNode number) := fun number e ↦
    (((hindent.append (isPlain_natRepr number)).append hopen).append e.isPlain_label).append hclose
  have hedge : ∀ parent child, IsPlain (diagramEdge parent child) := fun parent child ↦
    (((hindent.append (isPlain_natRepr parent)).append harrow).append
      (isPlain_natRepr child)).append hend
  induction e generalizing number with
  | negation place operand ih =>
      exact List.forall_mem_cons.mpr ⟨hnode _ _, List.forall_mem_cons.mpr ⟨hedge _ _, ih⟩⟩
  | binary place op left right ihl ihr =>
      refine List.forall_mem_cons.mpr ⟨hnode _ _, List.forall_mem_cons.mpr ⟨hedge _ _, ?_⟩⟩
      exact List.forall_mem_append.mpr ⟨ihl, List.forall_mem_cons.mpr ⟨hedge _ _, ihr⟩⟩
  | _ => exact List.forall_mem_singleton.mpr (hnode _ _)

theorem Diagram.isPlain_of_mem_graphLines {e : Expr} : ∀ line ∈ graphLines e, IsPlain line := by
  rw [graphLines, List.forall_mem_cons, List.forall_mem_append]
  exact ⟨by decide, Expr.isPlain_of_mem_diagramLines, by decide⟩

theorem Outline.exists_unescaped {e : Expr} (he : e.Labelled) :
    ∃ text, e.outline = .ok text ∧ Unescaped text :=
  ⟨_, outline_eq he, unescaped_intercalate (by decide) fun line hline ↦
    (Expr.isPlain_of_mem_outlineLines line hline).unescaped⟩

theorem Diagram.exists_unescaped {e : Expr} (he : e.Labelled) :
    ∃ text, e.diagram = .ok text ∧ Unescaped text :=
  ⟨_, diagram_eq he, unescaped_intercalate (by decide) fun line hline ↦
    (isPlain_of_mem_graphLines line hline).unescaped⟩

end ArithAsm
