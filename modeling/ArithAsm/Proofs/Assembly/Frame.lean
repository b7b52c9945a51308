import ArithAsm.Assembly.Code
import ArithAsm.Assembly.Machine

/-!
# What a run leaves alone

At every moment of its run the code of a tree has pushed at least as much as it has popped.
So whatever lay on the stack before it stays there, and the top follows from the pushes and
pops alone.  Of the registers only three are ever changed.
-/

namespace ArithAsm

/-- The registers that generated code works with. -/
def Register.IsScratch (r : Register) : Prop :=
  r = .rax ∨ r = .rdi ∨ r = .rdx

/-- If the instruction pops into a register, then into one of the scratch registers. -/
def Instruction.PopsToScratch (i : Instruction) : Prop :=
  ∀ r, i = .pop (.register r) → r.IsScratch

/-- The pushes less the pops in a piece of code. -/
def depthOf : List Instruction → Int
  | [] => 0
  | i :: code => i.depthChange + depthOf code

@[simp] theorem depthOf_nil : depthOf [] = 0 := rfl

@[simp] theorem depthOf_cons (i : Instruction) (code : List Instruction) :
    depthOf (i :: code) = i.depthChange + depthOf code := rfl

@[simp] theorem depthOf_append (first second : List Instruction) :
    depthOf (first ++ second) = depthOf first + depthOf second := by
  induction first with
  | nil => exact (Int.zero_add _).symm
  | cons i rest ih => rw [List.cons_append, depthOf_cons, depthOf_cons, ih, Int.add_assoc]

/-- What holds of the depth before an instruction and at every moment from it on. -/
theorem forall_depthOf_take_cons {P : Int → Prop} {i : Instruction} {code : List Instruction} :
    (∀ n, P (depthOf ((i :: code).take n))) ↔
      P 0 ∧ ∀ n, P (i.depthChange + depthOf (code.take n)) := by
  constructor
  · intro h
    exact ⟨h 0, fun n ↦ h (n + 1)⟩
  · rintro ⟨hzero, h⟩ n
    cases n with
    | zero => exact hzero
    | succ n => exact h n

/-- What holds of the depth at every moment of one piece of code and then of another. -/
theorem forall_depthOf_take_append {P : Int → Prop} {first second : List Instruction}
    (hf : ∀ n, P (depthOf (first.take n)))
    (hs : ∀ n, P (depthOf first + depthOf (second.take n))) (n : Nat) :
    P (depthOf ((first ++ second).take n)) := by
  rw [List.take_append, depthOf_append]
  rcases Nat.le_total n first.length with hn | hn
  · rw [Nat.sub_eq_zero_of_le hn, List.take_zero, depthOf_nil, Int.add_zero]
    exact hf n
  · rw [List.take_of_length_le hn]
    exact hs (n - first.length)

/-- Nowhere along the code does the depth, counted from its start, fall below a bound. -/
def StaysAbove (low : Int) (code : List Instruction) : Prop :=
  ∀ n, low ≤ depthOf (code.take n)

namespace StaysAbove

variable {low : Int}

theorem nil_iff : StaysAbove low [] ↔ low ≤ 0 := by
  simp [StaysAbove]

theorem cons_iff {i : Instruction} {code : List Instruction} :
    StaysAbove low (i :: code) ↔ low ≤ 0 ∧ StaysAbove (low - i.depthChange) code := by
  have hrest : (∀ n, low ≤ i.depthChange + depthOf (code.take n)) ↔
      StaysAbove (low - i.depthChange) code :=
    forall_congr' fun n ↦ ⟨Int.sub_left_le_of_le_add, Int.le_add_of_sub_left_le⟩
  rw [← hrest]
  exact forall_depthOf_take_cons

theorem append {first second : List Instruction} (hf : StaysAbove low first)
    (hs : StaysAbove (low - depthOf first) second) : StaysAbove low (first ++ second) :=
  forall_depthOf_take_append hf fun n ↦ Int.le_add_of_sub_left_le (hs n)

end StaysAbove

/-- A machine and a later one: the top has moved, the cells from a bottom on are as before, and
so are all registers but the scratch registers. -/
structure Machine.Leaves (bottom : Int) (m next : Machine) (depth : Int) : Prop where
  top : next.top = m.top - depth
  cells : ∀ cell, bottom ≤ cell → next.cells cell = m.cells cell
  registers : ∀ r, ¬ r.IsScratch → next.registers r = m.registers r

namespace Machine.Leaves

variable {bottom : Int} {m : Machine}

theorem refl : Leaves bottom m m 0 :=
  ⟨(Int.sub_zero m.top).symm, fun _ _ ↦ rfl, fun _ _ ↦ rfl⟩

theorem trans {next last : Machine} {first second : Int} (hf : Leaves bottom m next first)
    (hs : Leaves bottom next last second) : Leaves bottom m last (first + second) := by
  refine ⟨?_, fun cell hcell ↦ ?_, fun r hr ↦ ?_⟩
  · rw [hs.top, hf.top, Int.sub_sub]
  · rw [hs.cells cell hcell, hf.cells cell hcell]
  · rw [hs.registers r hr, hf.registers r hr]

theorem set {r : Register} (hr : r.IsScratch) (w : Word64) : Leaves bottom m (m.set r w) 0 := by
  refine ⟨(Int.sub_zero m.top).symm, fun _ _ ↦ rfl, fun other hother ↦ set_other m ?_ w⟩
  rintro rfl
  exact hother hr

theorem push (h : m.top ≤ bottom) (w : Word64) : Leaves bottom m (m.push w) 1 :=
  ⟨rfl, fun _ hcell ↦ cells_push_of_le m w (Int.le_trans h hcell), fun _ _ ↦ rfl⟩

theorem drop : Leaves bottom m m.drop (-1) :=
  ⟨(Int.sub_neg m.top 1).symm, fun _ _ ↦ rfl, fun _ _ ↦ rfl⟩

theorem divide {next : Machine} (h : m.divide = .running next) : Leaves bottom m next 0 := by
  unfold Machine.divide at h
  simp only at h
  split at h
  · cases h
  · split at h
    · obtain rfl := RunOutcome.running.inj h
      exact (set (.inl rfl) _).trans (set (.inr (.inr rfl)) _)
    · cases h

/-- One instruction of a run. -/
theorem step {i : Instruction} (hi : i.PopsToScratch) (hbottom : m.top ≤ bottom)
    {next : Machine} (h : i.step m = .running next) :
    Leaves bottom m next i.depthChange := by
  cases i with
  | push operand =>
      cases operand with
      | immediate n =>
          simp only [Instruction.step] at h
          split at h
          · exact RunOutcome.running.inj h ▸ push hbottom _
          · cases h
      | register r => exact RunOutcome.running.inj h ▸ push hbottom _
      | verbatim text => cases h
  | pop target =>
      cases target with
      | register r =>
          exact RunOutcome.running.inj h ▸ drop.trans (set (hi r rfl) _)
      | immediate n => cases h
      | verbatim text => cases h
  | load n =>
      simp only [Instruction.step] at h
      split at h
      · exact RunOutcome.running.inj h ▸ set (.inl rfl) _
      · cases h
  | neg => exact RunOutcome.running.inj h ▸ set (.inl rfl) _
  | add => exact RunOutcome.running.inj h ▸ set (.inl rfl) _
  | sub => exact RunOutcome.running.inj h ▸ set (.inl rfl) _
  | imul => exact RunOutcome.running.inj h ▸ set (.inl rfl) _
  | cqo => exact RunOutcome.running.inj h ▸ set (.inr (.inr rfl)) _
  | idiv => exact divide h
  | ret => cases h
  | verbatim text => cases h

/-- A whole run: as long as the top stays below the bottom, nothing from there on changes. -/
theorem execute {code : List Instruction} (hcode : ∀ i ∈ code, i.PopsToScratch)
    (hbottom : StaysAbove (m.top - bottom) code) {next : Machine}
    (h : ArithAsm.execute code m = .running next) : Leaves bottom m next (depthOf code) := by
  induction code generalizing m with
  | nil => exact RunOutcome.running.inj h ▸ refl
  | cons i rest ih =>
      obtain ⟨hi, hrest⟩ := List.forall_mem_cons.mp hcode
      obtain ⟨hlow, habove⟩ := StaysAbove.cons_iff.mp hbottom
      rw [ArithAsm.execute] at h
      cases hstep : i.step m with
      | running middle =>
          rw [hstep] at h
          have hfirst : Leaves bottom m middle i.depthChange := step hi (by omega) hstep
          -- The top has moved, so the depth is counted from another place.
          refine hfirst.trans (ih hrest ?_ h)
          have hmiddle : middle.top - bottom = m.top - bottom - i.depthChange := by
            rw [hfirst.top]
            omega
          rwa [hmiddle]
      | returned last => rw [hstep] at h; cases h
      | trapped => rw [hstep] at h; cases h
      | stuck => rw [hstep] at h; cases h

end Machine.Leaves

/-! ## The code of a tree -/

/-- The instructions of generated code that carry no constant. -/
def Instruction.constantFree : List Instruction :=
  [.push (.register .rax), .pop (.register .rax), .pop (.register .rdi), .neg, .add, .sub, .imul,
    .cqo, .idiv, .ret]

/-- The instructions that occur in generated code. -/
inductive Instruction.IsEmitted : Instruction → Prop where
  | constant (c : Constant) : IsEmitted (.push (.immediate c))
  | load (c : Constant) : IsEmitted (.load c)
  | constantFree {i : Instruction} (h : i ∈ Instruction.constantFree) : IsEmitted i

theorem Instruction.IsEmitted.popsToScratch {i : Instruction} (h : i.IsEmitted) :
    i.PopsToScratch := by
  cases h with
  | constant c => rintro r ⟨⟩
  | load c => rintro r ⟨⟩
  | constantFree hi =>
      rintro r rfl
      have hr : r = .rax ∨ r = .rdi := by simpa [Instruction.constantFree] using hi
      exact hr.imp id .inl

theorem literalCode_isEmitted (c : Constant) : ∀ i ∈ literalCode c, i.IsEmitted := by
  unfold literalCode
  split
  · exact List.forall_mem_singleton.mpr (.constant c)
  · exact List.forall_mem_cons.mpr
      ⟨.load c, List.forall_mem_singleton.mpr (.constantFree (by decide))⟩

theorem numberCode_isEmitted (n : Int) : ∀ i ∈ numberCode n, i.IsEmitted := by
  unfold numberCode
  cases Constant.of? n with
  | none => exact List.forall_mem_nil _
  | some c => exact literalCode_isEmitted c

theorem negationCode_isEmitted : ∀ i ∈ negationCode, i.IsEmitted :=
  fun _ hi ↦ .constantFree ((by decide : ∀ i ∈ negationCode, i ∈ Instruction.constantFree) _ hi)

theorem operationCode_isEmitted (op : Op) : ∀ i ∈ operationCode op, i.IsEmitted := by
  have hfree : ∀ i ∈ operationCode op, i ∈ Instruction.constantFree := by
    cases op <;> decide
  exact fun i hi ↦ .constantFree (hfree i hi)

theorem Expr.code_isEmitted (e : Expr) : ∀ i ∈ e.code, i.IsEmitted := by
  induction e with
  | literal place value =>
      cases value with
      | none => simp [code]
      | some n => exact numberCode_isEmitted n
  | negation place operand ih =>
      exact List.forall_mem_append.mpr ⟨ih, negationCode_isEmitted⟩
  | binary place op left right ihl ihr =>
      cases op with
      | none => simp [code]
      | some op =>
          exact List.forall_mem_append.mpr
            ⟨List.forall_mem_append.mpr ⟨ihl, ihr⟩, operationCode_isEmitted op⟩
  | blank place => simp [code]
  | missing => simp [code]

theorem Expr.programCode_isEmitted (e : Expr) : ∀ i ∈ e.programCode, i.IsEmitted := by
  refine List.forall_mem_append.mpr ⟨e.code_isEmitted, fun i hi ↦ .constantFree ?_⟩
  revert i
  decide

/-- The code of a tree without gaps adds one value, and never takes more than it has added. -/
theorem Expr.depth_code {e : Expr} (he : e.Complete) (hshort : e.Short) :
    depthOf e.code = 1 ∧ StaysAbove 0 e.code := by
  induction e with
  | literal place value =>
      obtain ⟨n, rfl⟩ := Option.isSome_iff_exists.mp he
      rw [code, numberCode_of_short (hshort n rfl), literalCode]
      split <;>
        simp [StaysAbove.cons_iff, StaysAbove.nil_iff, Instruction.depthChange]
  | negation place operand ih =>
      obtain ⟨hdepth, habove⟩ := ih he hshort
      refine ⟨?_, habove.append ?_⟩
      · simp [code, hdepth, negationCode, Instruction.depthChange]
      · simp [hdepth, negationCode, StaysAbove.cons_iff, StaysAbove.nil_iff,
          Instruction.depthChange]
  | binary place op left right ihl ihr =>
      obtain ⟨hop, hl, hr⟩ := he
      obtain ⟨op, rfl⟩ := Option.isSome_iff_exists.mp hop
      obtain ⟨hdepthl, habovel⟩ := ihl hl hshort.1
      obtain ⟨hdepthr, habover⟩ := ihr hr hshort.2
      have hown : depthOf (operationCode op) = -1 ∧ StaysAbove (-2) (operationCode op) := by
        cases op <;>
          simp [operationCode, Op.instructions, StaysAbove.cons_iff, StaysAbove.nil_iff,
            Instruction.depthChange]
      refine ⟨?_, (habovel.append ?_).append ?_⟩
      · simp [code, hdepthl, hdepthr, hown.1]
      · intro n
        have hn := habover n
        omega
      · intro n
        have hn := hown.2 n
        rw [depthOf_append]
        omega
  | blank place => exact he.elim
  | missing => exact he.elim

/-- A run of the code of a tree without gaps leaves one more value on the stack. -/
theorem Expr.leaves_of_execute_code {e : Expr} (he : e.Complete) (hshort : e.Short)
    {m next : Machine} (h : execute e.code m = .running next) :
    Machine.Leaves m.top m next 1 := by
  obtain ⟨hdepth, habove⟩ := depth_code he hshort
  have hbottom : StaysAbove (m.top - m.top) e.code := by rwa [Int.sub_self]
  rw [← hdepth]
  exact Machine.Leaves.execute (fun i hi ↦ (e.code_isEmitted i hi).popsToScratch) hbottom h

end ArithAsm
