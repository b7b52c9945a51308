import ArithAsm.Expr.Places
import ArithAsm.Proofs.Assembly.Remarks

/-!
# Trees recovered from programs

The instructions of a program can be run on trees in place of words.  A push of a constant then puts
a literal on the stack, and an operation puts the tree of its operands there.  What is returned in
the end is the tree that the program was written for, so no two trees have the same program.
-/

namespace ArithAsm

/-- A machine that holds trees in place of words. -/
structure TreeMachine where
  rax : Expr := .missing
  rdi : Expr := .missing
  stack : List Expr := []

namespace TreeMachine

/-- Replaces the left operand by an operation on both. -/
def combine (m : TreeMachine) (op : Op) : TreeMachine :=
  { m with rax := .binary default (some op) m.rax m.rdi }

def step (m : TreeMachine) : Instruction → Option TreeMachine
  | .push (.immediate c) => some { m with stack := .literal default (some c.value) :: m.stack }
  | .push (.register .rax) => some { m with stack := m.rax :: m.stack }
  | .pop (.register .rax) =>
      m.stack.head?.map fun e ↦ { m with rax := e, stack := m.stack.tail }
  | .pop (.register .rdi) =>
      m.stack.head?.map fun e ↦ { m with rdi := e, stack := m.stack.tail }
  | .load c => some { m with rax := .literal default (some c.value) }
  | .neg => some { m with rax := .negation default m.rax }
  | .add => some (m.combine .add)
  | .sub => some (m.combine .sub)
  | .imul => some (m.combine .mul)
  | .idiv => some (m.combine .div)
  | .cqo => some m
  | .ret => some m
  | _ => none

def run (m : TreeMachine) (code : List Instruction) : Option TreeMachine :=
  code.foldlM step m

theorem run_append (m : TreeMachine) (first second : List Instruction) :
    m.run (first ++ second) = (m.run first).bind (·.run second) :=
  List.foldlM_append

theorem run_literalCode (m : TreeMachine) (c : Constant) :
    ∃ next, m.run (literalCode c) = some next ∧
      next.stack = .literal default (some c.value) :: m.stack := by
  unfold literalCode
  split
  · exact ⟨_, rfl, rfl⟩
  · exact ⟨_, rfl, rfl⟩

theorem run_negationCode {m : TreeMachine} {e : Expr} {below : List Expr}
    (h : m.stack = e :: below) :
    ∃ next, m.run negationCode = some next ∧ next.stack = .negation default e :: below := by
  obtain ⟨rax, rdi, stack⟩ := m
  subst h
  exact ⟨_, rfl, rfl⟩

theorem run_operationCode {m : TreeMachine} (op : Op) {left right : Expr} {below : List Expr}
    (h : m.stack = right :: left :: below) :
    ∃ next, m.run (operationCode op) = some next ∧
      next.stack = .binary default (some op) left right :: below := by
  obtain ⟨rax, rdi, stack⟩ := m
  subst h
  cases op <;> exact ⟨_, rfl, rfl⟩

/-- The code of a tree puts the tree, without its places, on the stack. -/
theorem run_code {e : Expr} (he : e.Complete) (hshort : e.Short) (m : TreeMachine) :
    ∃ next, m.run e.code = some next ∧
      next.stack = (e.mapPlace fun _ ↦ default) :: m.stack := by
  induction e generalizing m with
  | literal place value =>
      obtain ⟨n, rfl⟩ := Option.isSome_iff_exists.mp he
      rw [Expr.code, numberCode_of_short (hshort n rfl)]
      exact run_literalCode m ⟨n, hshort n rfl⟩
  | negation place operand ih =>
      obtain ⟨middle, hoperand, hstack⟩ := ih he hshort m
      obtain ⟨next, hown, hnext⟩ := run_negationCode hstack
      refine ⟨next, ?_, hnext⟩
      rw [Expr.code, run_append, hoperand, Option.bind_some, hown]
  | binary place op left right ihl ihr =>
      obtain ⟨hop, hl, hr⟩ := he
      obtain ⟨op, rfl⟩ := Option.isSome_iff_exists.mp hop
      obtain ⟨first, hleft, hfirst⟩ := ihl hl hshort.1 m
      obtain ⟨second, hright, hsecond⟩ := ihr hr hshort.2 first
      rw [hfirst] at hsecond
      obtain ⟨next, hown, hnext⟩ := run_operationCode op hsecond
      refine ⟨next, ?_, hnext⟩
      rw [Expr.code, run_append, run_append, hleft, Option.bind_some, hright, Option.bind_some,
        hown]
  | blank place => exact he.elim
  | missing => exact he.elim

end TreeMachine

/-- The tree that a whole program returns, run on trees. -/
def treeOf? (code : List Instruction) : Option Expr :=
  (TreeMachine.run {} code).map TreeMachine.rax

theorem treeOf?_programCode {e : Expr} (he : e.Complete) (hshort : e.Short) :
    treeOf? e.programCode = some (e.mapPlace fun _ ↦ default) := by
  obtain ⟨⟨rax, rdi, stack⟩, hrun, hstack⟩ := TreeMachine.run_code he hshort {}
  subst hstack
  rw [treeOf?, Expr.programCode, TreeMachine.run_append, hrun]
  rfl

/-! ## Places in the tree -/

namespace Expr

section Places

variable (f : Location → Location)

theorem label?_mapPlace (e : Expr) : (e.mapPlace f).label? = e.label? := by
  cases e with
  | literal place value => cases value <;> rfl
  | _ => rfl

theorem listing_mapPlace (remarks : Bool) (e : Expr) :
    (e.mapPlace f).listing remarks = e.listing remarks := by
  have hremark : ∀ part : Expr, (part.mapPlace f).remarkLines remarks = part.remarkLines remarks :=
    fun part ↦ by rw [remarkLines, remarkLines, label?_mapPlace]
  induction e with
  | literal place value =>
      cases value with
      | none => rfl
      | some n => exact congrArg (· ++ _) (hremark (.literal place (some n)))
  | negation place operand ih =>
      have hown := hremark (.negation place operand)
      rw [mapPlace] at hown ⊢
      rw [listing, listing, ih, hown]
  | binary place op left right ihl ihr =>
      cases op with
      | none => rfl
      | some op =>
          have hown := hremark (.binary place (some op) left right)
          rw [mapPlace] at hown ⊢
          rw [listing, listing, ihl, ihr, hown]
  | blank place => rfl
  | missing => rfl

theorem programLines_mapPlace (entry : String) (remarks : Bool) (e : Expr) :
    (e.mapPlace f).programLines entry remarks = e.programLines entry remarks := by
  rw [programLines, programLines, listing_mapPlace]

theorem Alike.programLines_eq {e other : Expr} (h : e.Alike other) (entry : String)
    (remarks : Bool) : e.programLines entry remarks = other.programLines entry remarks := by
  rw [← programLines_mapPlace (fun _ ↦ default) entry remarks e, h, programLines_mapPlace]

end Places

end Expr

/-! ## Texts -/

namespace Expr

theorem mapM_ofLine?_body (e : Expr) :
    (Text.lines (programText (e.body false))).mapM Instruction.ofLine? = some e.programCode := by
  have hsingle : ∀ l ∈ e.body false, Text.IsSingle l.text.toList := by
    intro l hl
    rw [body_false] at hl
    obtain ⟨i, hi, rfl⟩ := List.mem_map.mp hl
    exact (e.programCode_isEmitted i hi).isPlain.isSingle
  rw [lines_programText (e.body_ne_nil false) hsingle, body_false,
    mapM_ofLine? e.programCode_isEmitted]

/-- What follows the entry is read line by line, whatever the entry is called. -/
theorem programCode_of_programText {e other : Expr} {entry : String}
    (h : programText (e.programLines entry false) = programText (other.programLines entry false)) :
    e.programCode = other.programCode := by
  rw [programText_programLines, programText_programLines] at h
  have hbody := (String.append_right_inj _).mp h
  have hcode := e.mapM_ofLine?_body
  rw [hbody, mapM_ofLine?_body] at hcode
  exact (Option.some.inj hcode).symm

theorem alike_of_programText {e other : Expr} (he : e.Complete) (hshort : e.Short)
    (hother : other.Complete) (hotherShort : other.Short) {entry : String}
    (h : programText (e.programLines entry false) = programText (other.programLines entry false)) :
    e.Alike other := by
  have htree := treeOf?_programCode he hshort
  rw [programCode_of_programText h, treeOf?_programCode hother hotherShort] at htree
  exact (Option.some.inj htree).symm

/-- A tree without gaps has a program just if its numbers are short. -/
theorem assembly_eq_ok_iff {e : Expr} (he : e.Complete) (entry text : String) :
    (Compilation.assemble { entry } e).result.map programText = .ok text ↔
      e.Short ∧ programText (e.programLines entry false) = text := by
  by_cases hshort : e.Short
  · rw [Compilation.assemble, program_eq_ok rfl he hshort, and_iff_right hshort]
    exact ⟨Except.ok.inj, congrArg Except.ok⟩
  · rw [Compilation.assemble, program_eq_tooLong rfl he hshort]
    refine iff_of_false (fun h ↦ ?_) fun h ↦ hshort h.1
    cases h

end Expr

/-- Programs for the same entry have the same text just if their trees differ in places only. -/
theorem Compilation.result_assemble_determines {e other : Expr} (he : e.Complete)
    (hother : other.Complete) (entry : String) :
    ((∃ text, (assemble { entry } e).result.map programText = .ok text) ↔ e.Short) ∧
    ((∃ text, (assemble { entry } other).result.map programText = .ok text) ↔ other.Short) ∧
    ∀ text text' : String, (assemble { entry } e).result.map programText = .ok text →
      (assemble { entry } other).result.map programText = .ok text' →
      (text = text' ↔ e.Alike other) := by
  have hexists : ∀ {e : Expr}, e.Complete →
      ((∃ text, (assemble { entry } e).result.map programText = .ok text) ↔ e.Short) := fun he ↦
    ⟨fun ⟨text, htext⟩ ↦ ((Expr.assembly_eq_ok_iff he entry text).mp htext).1,
      fun hshort ↦ ⟨_, (Expr.assembly_eq_ok_iff he entry _).mpr ⟨hshort, rfl⟩⟩⟩
  refine ⟨hexists he, hexists hother, fun text text' htext htext' ↦ ?_⟩
  obtain ⟨hshort, rfl⟩ := (Expr.assembly_eq_ok_iff he entry text).mp htext
  obtain ⟨hotherShort, rfl⟩ := (Expr.assembly_eq_ok_iff hother entry text').mp htext'
  refine ⟨Expr.alike_of_programText he hshort hother hotherShort, fun h ↦ ?_⟩
  rw [h.programLines_eq]

/-- The trees of `-(1-2)` and `-1-2`, whose programs consist of the same instructions but for their
order. -/
theorem Compilation.result_assemble_determines_negation :
    let one : Expr := .literal default (some 1)
    let two : Expr := .literal default (some 2)
    let e : Expr := .negation default (.binary default (some .sub) one two)
    let other : Expr := .binary default (some .sub) (.negation default one) two
    e.Complete ∧ other.Complete ∧ ∃ text text' : String,
      (assemble { entry := "start" } e).result.map programText = .ok text ∧
      (assemble { entry := "start" } other).result.map programText = .ok text' ∧ text ≠ text' := by
  intro one two e other
  have he : e.Complete := ⟨rfl, rfl, rfl⟩
  have hother : other.Complete := ⟨rfl, rfl, rfl⟩
  obtain ⟨hexists, hexists', hiff⟩ := result_assemble_determines he hother "start"
  obtain ⟨text, htext⟩ := hexists.mpr (by decide)
  obtain ⟨text', htext'⟩ := hexists'.mpr (by decide)
  exact ⟨he, hother, text, text', htext, htext',
    mt (hiff text text' htext htext').mp (by decide)⟩

end ArithAsm
