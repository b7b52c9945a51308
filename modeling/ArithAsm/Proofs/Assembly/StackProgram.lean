import ArithAsm.Proofs.Assembly.Drafting
import ArithAsm.Proofs.Assembly.Simulation

/-!
# The program of a tree

The instructions of a program are the code of its tree and two more, which return the value.
A run from any state either returns this value or traps at the division that has none.  It
never touches what its caller has on the stack, nor any register but the scratch registers.
-/

namespace ArithAsm

theorem StaysAbove.take {low : Int} {code : List Instruction} (h : StaysAbove low code) (n : Nat) :
    StaysAbove low (code.take n) := by
  intro k
  rw [List.take_take]
  exact h (min k n)

namespace Expr

variable {e : Expr}

theorem depth_programCode (he : e.Complete) (hshort : e.Short) : StaysAbove 0 e.programCode := by
  obtain ⟨hdepth, habove⟩ := depth_code he hshort
  refine habove.append ?_
  simp [hdepth, StaysAbove.cons_iff, StaysAbove.nil_iff, Instruction.depthChange]

/-- The state at any moment of a run, before it has returned. -/
theorem leaves_of_execute_take (he : e.Complete) (hshort : e.Short) {m next : Machine} {n : Nat}
    (h : execute (e.programCode.take n) m = .running next) :
    next.top ≤ m.top ∧ (∀ cell, m.top ≤ cell → next.cells cell = m.cells cell) ∧
      ∀ r, ¬ r.IsScratch → next.registers r = m.registers r := by
  have hpops : ∀ i ∈ e.programCode.take n, i.PopsToScratch :=
    fun i hi ↦ (e.programCode_isEmitted i (List.mem_of_mem_take hi)).popsToScratch
  have hbottom : StaysAbove (m.top - m.top) (e.programCode.take n) := by
    rw [Int.sub_self]
    exact (depth_programCode he hshort).take n
  have hdepth : 0 ≤ depthOf (e.programCode.take n) := depth_programCode he hshort n
  have hleaves := Machine.Leaves.execute hpops hbottom h
  refine ⟨?_, hleaves.cells, hleaves.registers⟩
  rw [hleaves.top]
  omega

theorem execute_programCode (he : e.Complete) (hliterals : e.WordLiterals) {w : Word64}
    (h : e.machineValue = some w) (m : Machine) :
    ∃ last, execute e.programCode m = .returned last ∧ last.registers .rax = w ∧
      last.top = m.top ∧ (∀ cell, m.top ≤ cell → last.cells cell = m.cells cell) ∧
      ∀ r, ¬ r.IsScratch → last.registers r = m.registers r := by
  obtain ⟨next, hnext, rfl⟩ := execute_code he hliterals h m
  have hscratch : Register.rax.IsScratch := .inl rfl
  have hleaves := (leaves_of_execute_code he hliterals.short hnext).trans
    (Machine.Leaves.drop.trans (Machine.Leaves.set hscratch next.peek))
  refine ⟨_, (execute_append_running hnext _).trans rfl, Machine.set_same _ _ _, ?_,
    hleaves.cells, hleaves.registers⟩
  rw [hleaves.top]
  omega

theorem StopsAt.programCode_eq (he : e.Complete) {m : Machine} {before : List Expr}
    {left right : Expr} (h : e.StopsAt m before left right) :
    ∃ rest, e.programCode =
      (before.flatMap ownCode ++ [.pop (.register .rdi), .pop (.register .rax), .cqo]) ++
        .idiv :: rest := by
  obtain ⟨rest, hcode⟩ := h.code_eq he
  exact ⟨rest ++ [.pop (.register .rax), .ret], by simp [programCode, hcode]⟩

theorem StopsAt.execute_programCode (he : e.Complete) {m : Machine} {before : List Expr}
    {left right : Expr} (h : e.StopsAt m before left right) :
    execute e.programCode m = .trapped := by
  obtain ⟨rest, hcode⟩ := h.programCode_eq he
  obtain ⟨l, r, next, -, -, -, hrun, -, -, htrap⟩ := h.trap
  rw [hcode, execute_append_running hrun, execute, htrap]

/-- The program of a tree without gaps computes its value, whatever the state it starts from,
and keeps what belongs to its caller.  Without a value it traps, and it does so at the first
division in post-order that has no result. -/
theorem execute_program (he : e.Complete) (hliterals : e.WordLiterals) (entry : String)
    (remarks checked : Bool) (m : Machine) :
    ∃ lines, e.program { entry, remarks, checked } = .ok lines ∧
      (∀ w, e.machineValue = some w →
        ∃ last, execute (instructionsOf lines) m = .returned last ∧ last.registers .rax = w ∧
          last.top = m.top ∧ (∀ cell, m.top ≤ cell → last.cells cell = m.cells cell) ∧
          ∀ r, r ≠ .rax ∧ r ≠ .rdi ∧ r ≠ .rdx → last.registers r = m.registers r) ∧
      (e.machineValue = none →
        execute (instructionsOf lines) m = .trapped ∧
          ∃ before left right rest, e.StopsAt m before left right ∧
            instructionsOf lines =
              (before.flatMap ownCode ++
                [.pop (.register .rdi), .pop (.register .rax), .cqo]) ++ .idiv :: rest) ∧
      ∀ n next, execute ((instructionsOf lines).take n) m = .running next →
        next.top ≤ m.top ∧ (∀ cell, m.top ≤ cell → next.cells cell = m.cells cell) ∧
          ∀ r, r ≠ .rax ∧ r ≠ .rdi ∧ r ≠ .rdx → next.registers r = m.registers r := by
  have hother : ∀ r : Register, r ≠ .rax ∧ r ≠ .rdi ∧ r ≠ .rdx → ¬ r.IsScratch := by
    rintro r ⟨hrax, hrdi, hrdx⟩ (h | h | h)
    · exact hrax h
    · exact hrdi h
    · exact hrdx h
  refine ⟨_, program_eq_ok rfl he hliterals.short, ?_⟩
  rw [instructionsOf_programLines]
  refine ⟨fun w hw ↦ ?_, fun hnone ↦ ?_, fun n next hnext ↦ ?_⟩
  · obtain ⟨last, hlast, hrax, htop, hcells, hregisters⟩ :=
      execute_programCode he hliterals hw m
    exact ⟨last, hlast, hrax, htop, hcells, fun r hr ↦ hregisters r (hother r hr)⟩
  · obtain ⟨before, left, right, hstop⟩ := exists_stopsAt he hliterals hnone m
    obtain ⟨rest, hcode⟩ := hstop.programCode_eq he
    exact ⟨hstop.execute_programCode he, before, left, right, rest, hstop, hcode⟩
  · obtain ⟨htop, hcells, hregisters⟩ := leaves_of_execute_take he hliterals.short hnext
    exact ⟨htop, hcells, fun r hr ↦ hregisters r (hother r hr)⟩

/-- The program for `1 / 0 - 7` traps before the subtraction is reached. -/
theorem execute_program_division_by_zero :
    let place : Location := { line := 1, column := 1 }
    let e : Expr := .binary place (some .sub)
      (.binary place (some .div) (.literal place (some 1)) (.literal place (some 0)))
      (.literal place (some 7))
    let m : Machine := { registers := fun _ ↦ 0, cells := fun _ ↦ 0, top := 0 }
    e.Complete ∧ e.WordLiterals ∧ e.machineValue = none ∧
      ∃ lines, e.program {} = .ok lines ∧ execute (instructionsOf lines) m = .trapped := by
  intro place e m
  have he : e.Complete := ⟨rfl, ⟨rfl, rfl, rfl⟩, rfl⟩
  have hliterals : e.WordLiterals := by simp [e, WordLiterals, IsWord]
  have hnone : e.machineValue = none := by decide
  obtain ⟨lines, hlines, -, htrap, -⟩ := execute_program he hliterals "main" false true m
  exact ⟨he, hliterals, hnone, lines, hlines, (htrap hnone).1⟩

end Expr

end ArithAsm
