import ArithAsm.Proofs.Assembly.Interrupted
import ArithAsm.Proofs.Assembly.Prediction
import ArithAsm.Proofs.Expr.Drawing
import ArithAsm.Proofs.Expr.Exactness

/-!
# Malformed trees

The evaluation of a tree goes through its nodes in post-order, as a draft does, and stops at the
first node that has a fault of its own.  For a draft these are the gaps.  For an evaluation they are
the gaps and the divisions by zero, so the two stop at the same node unless a zero divisor comes
first.
-/

namespace ArithAsm

theorem isWord_of_ok_wrap {n v : Int} (h : (.ok (wrap n) : Except ValueFault Int) = .ok v) :
    IsWord v := by
  obtain rfl := Except.ok.inj h
  exact isWord_wrap n

theorem Op.isWord_of_apply {op : Option Op} {l r v : Int} (h : Op.apply op l r = .ok v) :
    IsWord v := by
  unfold Op.apply at h
  split at h
  · exact isWord_of_ok_wrap h
  · exact isWord_of_ok_wrap h
  · exact isWord_of_ok_wrap h
  · split at h
    · cases h
    · exact isWord_of_ok_wrap h
  · split at h
    · cases h
    · exact isWord_of_ok_wrap h

namespace Expr

/-- A division whose divisor has the value zero.  An operation without an operator is a division. -/
def DividesByZero : Expr → Prop
  | .binary _ op _ right => (op = some .div ∨ op = none) ∧ right.value = .ok 0
  | _ => False

/-- Why a node has no value although its children have values. -/
def ownFault? : Expr → Option ValueFault
  | .literal _ (some _) => none
  | .negation .. => none
  | .binary _ op _ right =>
      if (op = some .div ∨ op = none) ∧ right.value = .ok 0 then some .divisionByZero else none
  | e => some (.noMeaning e.nodeClass)

/-- Adds a node to those that have got a value, unless it has none. -/
def settle (e : Expr) (settled : List Expr) :
    Except ValueFault Int → List Expr × Except ValueFault Int
  | .ok v => (settled ++ [e], .ok v)
  | .error fault => (settled, .error fault)

/-- The value of a tree together with the nodes that get a value on the way to it, in the order in
which they get it.  The evaluation stops at the first node that gets none. -/
def evaluation : Expr → List Expr × Except ValueFault Int
  | e@(.negation _ operand) =>
      match operand.evaluation with
      | (settled, .ok v) => e.settle settled (.ok (wrap (-v)))
      | stopped => stopped
  | e@(.binary _ op left right) =>
      match left.evaluation with
      | (settled, .ok l) =>
          match right.evaluation with
          | (more, .ok r) => e.settle (settled ++ more) (Op.apply op l r)
          | (more, .error fault) => (settled ++ more, .error fault)
      | stopped => stopped
  | e => e.settle [] e.value

def faultOf? : Except ValueFault Int → Option ValueFault
  | .ok _ => none
  | .error fault => some fault

theorem ownFault?_binary {right : Expr} {r : Int} (hr : right.value = .ok r) (place : Location)
    (op : Option Op) (left : Expr) (l : Int) :
    (binary place op left right).ownFault? = faultOf? (Op.apply op l r) := by
  have hzero : right.value = .ok 0 ↔ r = 0 := by simp [hr]
  simp only [ownFault?, hzero]
  rcases op with _ | op
  · by_cases h : r = 0 <;> simp [h, Op.apply, faultOf?]
  · cases op with
    | div => by_cases h : r = 0 <;> simp [h, Op.apply, faultOf?]
    | _ => simp [Op.apply, faultOf?]

/-- The fault of a tree is that of its first node in post-order that has one. -/
theorem findSome?_ownFault? (e : Expr) : e.postorder.findSome? ownFault? = faultOf? e.value := by
  induction e with
  | literal place value => cases value <;> rfl
  | negation place operand ih =>
      rw [postorder, List.findSome?_append, ih]
      cases hv : operand.value with
      | ok v =>
          rw [value_negation hv]
          rfl
      | error fault =>
          rw [value, hv]
          rfl
  | binary place op left right ihl ihr =>
      rw [postorder, List.findSome?_append, List.findSome?_append, ihl, ihr]
      cases hl : left.value with
      | error fault =>
          rw [value, hl]
          rfl
      | ok l =>
          cases hr : right.value with
          | error fault =>
              rw [value, hl, hr]
              rfl
          | ok r =>
              rw [value_binary hl hr, ← ownFault?_binary hr place op left l]
              exact List.findSome?_singleton
  | blank place => rfl
  | missing => rfl

/-- The nodes in front of the first one that has a fault of its own. -/
def sound (nodes : List Expr) : List Expr :=
  nodes.takeWhile (·.ownFault?.isNone)

theorem sound_append_of_none {first : List Expr} (h : ∀ part ∈ first, part.ownFault? = none)
    (second : List Expr) : sound (first ++ second) = first ++ sound second :=
  List.takeWhile_append_of_pos fun part hpart ↦ Option.isNone_iff_eq_none.mpr (h part hpart)

theorem sound_append_cons {before : List Expr} {node : Expr} {fault : ValueFault}
    (h : ∀ part ∈ before, part.ownFault? = none) (hnode : node.ownFault? = some fault)
    (after : List Expr) : sound (before ++ node :: after) = before := by
  rw [sound_append_of_none h, sound, List.takeWhile_cons_of_neg (by simp [hnode]), List.append_nil]

section

variable {e : Expr} {v : Int} {fault : ValueFault}

theorem sound_append_of_value (h : e.value = .ok v) (rest : List Expr) :
    sound (e.postorder ++ rest) = e.postorder ++ sound rest := by
  have hnone : e.postorder.findSome? ownFault? = none := by
    rw [findSome?_ownFault?, h]
    rfl
  exact sound_append_of_none (List.findSome?_eq_none_iff.mp hnone) rest

theorem sound_postorder_of_value (h : e.value = .ok v) : sound e.postorder = e.postorder := by
  have hall : sound (e.postorder ++ []) = e.postorder ++ [] := sound_append_of_value h []
  rwa [List.append_nil] at hall

/-- Whatever comes behind a tree that has a fault is not reached. -/
theorem sound_append_of_fault (h : e.value = .error fault) (rest : List Expr) :
    sound (e.postorder ++ rest) = sound e.postorder := by
  have hsome : e.postorder.findSome? ownFault? = some fault := by
    rw [findSome?_ownFault?, h]
    rfl
  obtain ⟨before, node, after, hnodes, hnode, hbefore⟩ := List.findSome?_eq_some_iff.mp hsome
  rw [hnodes, List.append_assoc, List.cons_append, sound_append_cons hbefore hnode,
    sound_append_cons hbefore hnode]

theorem settle_eq {result : Except ValueFault Int} (h : e.ownFault? = faultOf? result)
    (settled : List Expr) : e.settle settled result = (settled ++ sound [e], result) := by
  cases result with
  | ok v => simp [settle, sound, h, faultOf?]
  | error fault => simp [settle, sound, h, faultOf?]

end

/-- An evaluation settles the nodes in post-order and stops at the first one that has a fault. -/
theorem evaluation_eq (e : Expr) : e.evaluation = (sound e.postorder, e.value) := by
  induction e with
  | literal place value => cases value <;> rfl
  | negation place operand ih =>
      rw [evaluation, ih, postorder]
      cases hv : operand.value with
      | ok v =>
          rw [sound_append_of_value hv, sound_postorder_of_value hv, value_negation hv]
          exact settle_eq rfl _
      | error fault =>
          rw [sound_append_of_fault hv, value, hv]
          rfl
  | binary place op left right ihl ihr =>
      rw [evaluation, ihl, ihr, postorder, List.append_assoc]
      cases hl : left.value with
      | error fault =>
          rw [sound_append_of_fault hl, value, hl]
          rfl
      | ok l =>
          rw [sound_append_of_value hl, sound_postorder_of_value hl]
          cases hr : right.value with
          | error fault =>
              rw [sound_append_of_fault hr, value, hl, hr]
              rfl
          | ok r =>
              rw [sound_append_of_value hr, sound_postorder_of_value hr, value_binary hl hr,
                ← List.append_assoc]
              exact settle_eq (ownFault?_binary hr place op left l) _
  | blank place => rfl
  | missing => rfl

/-! ## Gaps and faults -/

theorem isWord_of_value {e : Expr} {v : Int} (h : e.value = .ok v) : IsWord v := by
  cases e with
  | literal place value =>
      rcases value with _ | n
      · cases h
      · exact isWord_of_ok_wrap h
  | negation place operand =>
      cases hv : operand.value with
      | error fault =>
          rw [value, hv] at h
          cases h
      | ok n =>
          rw [value_negation hv] at h
          exact isWord_of_ok_wrap h
  | binary place op left right =>
      cases hl : left.value with
      | error fault =>
          rw [value, hl] at h
          cases h
      | ok l =>
          cases hr : right.value with
          | error fault =>
              rw [value, hl, hr] at h
              cases h
          | ok r =>
              rw [value_binary hl hr] at h
              exact Op.isWord_of_apply h
  | blank place => cases h
  | missing => cases h

theorem Numbered.of_mem_postorder {e : Expr} (he : e.Numbered) :
    ∀ part ∈ e.postorder, part.Numbered := by
  induction e with
  | negation place operand ih =>
      exact List.forall_mem_append.mpr ⟨ih he, List.forall_mem_singleton.mpr he⟩
  | binary place op left right ihl ihr =>
      exact List.forall_mem_append.mpr ⟨List.forall_mem_append.mpr ⟨ihl he.1, ihr he.2⟩,
        List.forall_mem_singleton.mpr he⟩
  | _ => exact List.forall_mem_singleton.mpr he

variable {e : Expr}

theorem ownFault?_of_dividesByZero (h : e.DividesByZero) : e.ownFault? = some .divisionByZero := by
  cases e with
  | binary place op left right => exact if_pos h
  | _ => exact h.elim

/-- What is no gap has no fault but that of a division by zero. -/
theorem ownFault?_eq_none (he : e.Numbered) (hgap : e.gapFault? = none)
    (hzero : ¬ e.DividesByZero) :
    e.ownFault? = none := by
  cases e with
  | literal place value =>
      obtain ⟨n, rfl⟩ := Option.isSome_iff_exists.mp he
      rfl
  | negation place operand => rfl
  | binary place op left right => exact if_neg hzero
  | blank place => cases hgap
  | missing => cases hgap

theorem of_gapFault?_eq_noCode {name : String} (h : e.gapFault? = some (.noCode name)) :
    e.nodeClass.name = name ∧ e.ownFault? = some (.noMeaning e.nodeClass) := by
  cases e with
  | binary place op left right => cases op <;> cases h
  | literal place value =>
      cases value with
      | none => cases h
      | some n =>
          rw [gapFault?] at h
          split at h <;> cases h
  | negation place operand => cases h
  | blank place =>
      obtain rfl := DraftFault.noCode.inj (Option.some.inj h)
      exact ⟨rfl, rfl⟩
  | missing =>
      obtain rfl := DraftFault.noCode.inj (Option.some.inj h)
      exact ⟨rfl, rfl⟩

/-- An evaluation that stops at a node has settled the nodes in front of it, and nothing else. -/
theorem evaluation_of_stop {before after : List Expr} {node : Expr} {fault : ValueFault}
    (hnodes : e.postorder = before ++ node :: after)
    (hbefore : ∀ part ∈ before, part.ownFault? = none) (hnode : node.ownFault? = some fault) :
    e.evaluation = (before, .error fault) := by
  have hvalue : faultOf? e.value = some fault := by
    rw [← findSome?_ownFault?]
    exact List.findSome?_eq_some_iff.mpr ⟨before, node, after, hnodes, hnode, hbefore⟩
  rw [evaluation_eq, hnodes, sound_append_cons hbefore hnode]
  cases h : e.value with
  | ok v =>
      rw [h] at hvalue
      cases hvalue
  | error found =>
      rw [h] at hvalue
      obtain rfl := Option.some.inj hvalue
      rfl

/-- The lines that a draft adds for a node once the lines for its children are there. -/
def ownLines (remarks : Bool) (e : Expr) : List Line :=
  e.remarkLines remarks ++ e.ownCode.map .code

end Expr

theorem Course.ofNodes_append_cons {before : List Expr} {node : Expr} {fault : DraftFault}
    (hbefore : ∀ part ∈ before, part.gapFault? = none) (hnode : node.gapFault? = some fault)
    (remarks : Bool) (after : List Expr) :
    ofNodes remarks (before ++ node :: after) =
      ⟨before.flatMap (Expr.ownLines remarks), some fault⟩ := by
  induction before with
  | nil =>
      rw [List.nil_append, ofNodes, ofNode, hnode]
      rfl
  | cons e rest ih =>
      rw [List.forall_mem_cons] at hbefore
      rw [List.cons_append, ofNodes, ih hbefore.2, ofNode, hbefore.1]
      rfl

namespace Compilation

variable {e : Expr} {style : DraftStyle}

/-- A tree that has a program has a value, or a divisor is zero. -/
theorem value_of_program {lines : List Line} (hliteral : style.literalPushes = none)
    (he : e.Numbered) (h : e.program style = .ok lines) :
    (∃ v, e.value = .ok v ∧ IsWord v) ∨ e.value = .error .divisionByZero := by
  have hgap : e.postorder.findSome? Expr.gapFault? = none := by
    rw [Expr.program_eq_by_gap hliteral he] at h
    cases hfirst : e.postorder.findSome? Expr.gapFault? with
    | none => rfl
    | some fault =>
        rw [hfirst] at h
        cases h
  cases hvalue : e.value with
  | ok v => exact .inl ⟨v, rfl, Expr.isWord_of_value hvalue⟩
  | error fault =>
      obtain rfl := Expr.divisionByZero_of_value (Expr.complete_of_findSome? he hgap).1 hvalue
      exact .inr rfl

/-- The node at which a draft stops for want of code. -/
theorem exists_of_program_eq_noCode {name : String} (hliteral : style.literalPushes = none)
    (he : e.Numbered) (h : e.program style = .error (.noCode name)) :
    ∃ before node after, e.postorder = before ++ node :: after ∧
      node.gapFault? = some (.noCode name) ∧ ∀ part ∈ before, part.gapFault? = none := by
  rw [Expr.program_eq_by_gap hliteral he] at h
  cases hfirst : e.postorder.findSome? Expr.gapFault? with
  | none =>
      rw [hfirst] at h
      cases h
  | some fault =>
      rw [hfirst] at h
      obtain rfl := Except.error.inj h
      exact List.findSome?_eq_some_iff.mp hfirst

theorem lines_of_gap {before after : List Expr} {node : Expr} {fault : DraftFault}
    (hliteral : style.literalPushes = none) (he : e.Numbered)
    (hnodes : e.postorder = before ++ node :: after)
    (hbefore : ∀ part ∈ before, part.gapFault? = none) (hnode : node.gapFault? = some fault)
    (start : Draft) :
    (Draft.apply (Draft.program style e) start).2.lines.toList =
      [.notationChoice, .visible style.entry, .label style.entry] ++
        before.flatMap (Expr.ownLines style.remarks) := by
  obtain ⟨d, hd, hlines⟩ := Draft.apply_program hliteral he start
  rw [hd, hlines, Expr.programCourse, hnodes, Course.ofNodes_append_cons hbefore hnode]
  rfl

theorem program_eq_ok_of_result {lines : List Line} (h : (assemble style e).result = .ok lines) :
    e.program style = .ok lines := by
  unfold assemble at h
  cases hprogram : e.program style with
  | ok found =>
      rw [hprogram] at h
      rw [Except.ok.inj h]
  | error fault =>
      rw [hprogram] at h
      cases h

theorem program_eq_noCode_of_result {name : String} (hliteral : style.literalPushes = none)
    (he : e.Numbered)
    (h : (assemble style e).result =
      .error (.drafting { message := s!"cannot generate code for {name}" })) :
    e.program style = .error (.noCode name) := by
  unfold assemble at h
  cases hprogram : e.program style with
  | ok lines =>
      rw [hprogram] at h
      cases h
  | error fault =>
      rw [hprogram] at h
      have hfault : fault.failure = (DraftFault.noCode name).failure := Except.error.inj h
      have hname : ∀ other, (DraftFault.noCode other).failure = (DraftFault.noCode name).failure →
          other = name := by
        intro other heq
        have hmessage := congrArg Diagnostic.message (Failure.drafting.inj heq)
        exact (String.append_right_inj _).mp hmessage
      rcases Expr.eq_of_program_eq_error hliteral he hprogram with ⟨textFault, rfl⟩ | rfl | rfl
      · cases textFault <;> cases hfault
      · rw [hname _ hfault]
      · rw [hname _ hfault]

theorem failure_of_stop {before after : List Expr} {node : Expr} {fault : ValueFault}
    (hnodes : e.postorder = before ++ node :: after)
    (hbefore : ∀ part ∈ before, part.ownFault? = none) (hnode : node.ownFault? = some fault) :
    e.evaluation = (before, e.value) ∧
      e.value.mapError ValueFault.failure = .error fault.failure := by
  have hevaluation := Expr.evaluation_of_stop hnodes hbefore hnode
  have hvalue : e.value = .error fault := by
    rw [Expr.evaluation_eq] at hevaluation
    exact congrArg Prod.snd hevaluation
  constructor
  · rw [hevaluation, hvalue]
  · rw [hvalue]
    rfl

/-- Where a tree has a program, it has a value, or a divisor is zero.  Where the draft stops at a
node that has no code, the evaluation stops at this node as well, unless it has come to a division
by zero before. -/
theorem value_fails_where_assemble_does (he : e.Numbered) (entry : String) (remarks : Bool) :
    let style : DraftStyle := { entry, remarks }
    let value := e.value.mapError ValueFault.failure
    (∀ lines, (assemble style e).result = .ok lines →
      (∃ v, value = .ok v ∧ -2 ^ 63 ≤ v ∧ v ≤ 2 ^ 63 - 1) ∨
        value = .error (.zeroDivisor "division by zero")) ∧
    ∀ name, (assemble style e).result =
        .error (.drafting { message := s!"cannot generate code for {name}" }) →
      ∃ before node after, e.postorder = before ++ node :: after ∧ node.nodeClass.name = name ∧
        (∀ start, (Draft.apply (Draft.program style e) start).2.lines.toList =
          [.notationChoice, .visible entry, .label entry] ++
            before.flatMap (Expr.ownLines remarks)) ∧
        ((∀ part ∈ before, ¬ part.DividesByZero) →
          e.evaluation = (before, e.value) ∧
          value = .error (.badClass s!"cannot evaluate {name}")) ∧
        ∀ earlier division later, before = earlier ++ division :: later →
          division.DividesByZero → (∀ part ∈ earlier, ¬ part.DividesByZero) →
          e.evaluation = (earlier, e.value) ∧
          value = .error (.zeroDivisor "division by zero") := by
  intro style value
  have hliteral : style.literalPushes = none := rfl
  refine ⟨fun lines h ↦ ?_, fun name h ↦ ?_⟩
  · rcases value_of_program hliteral he (program_eq_ok_of_result h) with
      ⟨v, hv, hlow, hhigh⟩ | hzero
    · refine .inl ⟨v, ?_, by omega, by omega⟩
      unfold value
      rw [hv]
      rfl
    · right
      unfold value
      rw [hzero]
      rfl
  · obtain ⟨before, node, after, hnodes, hnode, hbefore⟩ := exists_of_program_eq_noCode hliteral he
      (program_eq_noCode_of_result hliteral he h)
    obtain ⟨hname, hfault⟩ := Expr.of_gapFault?_eq_noCode hnode
    -- In front of the gap nothing but a division by zero stops an evaluation.
    have hsound : ∀ part ∈ before, ¬ part.DividesByZero → part.ownFault? = none := by
      intro part hpart hzero
      have hmem : part ∈ e.postorder := hnodes ▸ List.mem_append_left _ hpart
      exact Expr.ownFault?_eq_none (he.of_mem_postorder part hmem) (hbefore part hpart) hzero
    refine ⟨before, node, after, hnodes, hname,
      lines_of_gap hliteral he hnodes hbefore hnode, fun hzero ↦ ?_, ?_⟩
    · rw [← hname]
      exact failure_of_stop hnodes (fun part hpart ↦ hsound part hpart (hzero part hpart)) hfault
    · rintro earlier division later rfl hzero hearlier
      have hsites : e.postorder = earlier ++ division :: (later ++ node :: after) := by
        rw [hnodes, List.append_assoc, List.cons_append]
      have hbelow : ∀ part ∈ earlier, part.ownFault? = none := by
        intro part hpart
        exact hsound part (List.mem_append_left _ hpart) (hearlier part hpart)
      exact failure_of_stop hsites hbelow (Expr.ownFault?_of_dividesByZero hzero)

/-- In `1 + -?` nothing is divided, so both stop at the node that is missing. -/
theorem value_fails_where_assemble_does_missing :
    let place : Location := ⟨"<test>", 1, 1⟩
    let e : Expr := .binary place (some .add) (.literal place (some 1)) (.negation place .missing)
    e.Numbered ∧
    (assemble { entry := "main", remarks := false } e).result =
      .error (.drafting { message := "cannot generate code for NoneType" }) ∧
    e.value.mapError ValueFault.failure = .error (.badClass "cannot evaluate NoneType") ∧
    ∃ before node after, e.postorder = before ++ node :: after ∧
      node.nodeClass.name = "NoneType" ∧ e.evaluation = (before, e.value) := by
  intro place e
  have he : e.Numbered := ⟨rfl, trivial⟩
  have hfails : (assemble { entry := "main", remarks := false } e).result =
      .error (.drafting { message := "cannot generate code for NoneType" }) := rfl
  obtain ⟨-, hstop⟩ := value_fails_where_assemble_does he "main" false
  obtain ⟨before, node, after, hnodes, hname, -, hvalue, -⟩ := hstop "NoneType" hfails
  have hundivided : ∀ part ∈ e.postorder, ¬ part.DividesByZero := by
    simp [e, Expr.postorder, Expr.DividesByZero]
  have hbefore : ∀ part ∈ before, ¬ part.DividesByZero := by
    intro part hpart
    apply hundivided
    rw [hnodes]
    exact List.mem_append_left _ hpart
  obtain ⟨hevaluation, hfault⟩ := hvalue hbefore
  exact ⟨he, hfails, hfault, before, node, after, hnodes, hname, hevaluation⟩

/-- A division by zero that comes before the gap is found by the evaluation, and not by the
draft. -/
example :
    let quotient : Expr := .binary default (some .div) (.literal default (some 1))
      (.literal default (some 0))
    let e : Expr := .binary default (some .add) quotient (.blank default)
    e.value = .error .divisionByZero ∧
      e.program {} = .error (.noCode "Expression") ∧
      e.evaluation.1 = [.literal default (some 1), .literal default (some 0)] := by
  decide

end Compilation

end ArithAsm
