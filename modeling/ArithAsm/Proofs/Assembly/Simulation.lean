import ArithAsm.Proofs.Assembly.Frame
import ArithAsm.Proofs.Assembly.WordValue

/-!
# Running the code of a tree

From any state the code of a tree leaves the value of the tree on top of the stack.  If the
tree has no value, the run stops at the division of the first node in post-order that has
none, and before it the code of all earlier nodes was run.
-/

namespace ArithAsm

/-! ## Single operations -/

theorem execute_cons_running {i : Instruction} {m next : Machine} (h : i.step m = .running next)
    (rest : List Instruction) : execute (i :: rest) m = execute rest next := by
  rw [execute, h]

theorem execute_append_running {first : List Instruction} {m next : Machine}
    (h : execute first m = .running next) (rest : List Instruction) :
    execute (first ++ rest) m = execute rest next := by
  rw [execute_append, h]

theorem execute_numberCode {n : Int} (hn : IsWord n) (m : Machine) :
    ∃ next, execute (numberCode n) m = .running next ∧ next.peek = .ofInt 64 n := by
  obtain ⟨c, rfl⟩ : ∃ c : Constant, c.value = n := ⟨⟨n, isShort_of_isWord hn⟩, rfl⟩
  rw [numberCode_value, literalCode]
  split
  · next hpush =>
      have hfits : fitsPush c.value = true := by
        simp only [pushRange] at hpush
        simp only [fitsPush, Bool.and_eq_true, decide_eq_true_eq]
        omega
      have hstep : (Instruction.push (.immediate c)).step m =
          .running (m.push (.ofInt 64 c.value)) :=
        if_pos hfits
      exact ⟨_, execute_cons_running hstep [], Machine.peek_push m _⟩
  · have hstep : (Instruction.load c).step m = .running (m.set .rax (.ofInt 64 c.value)) :=
      if_pos (fitsWord_iff.mpr hn)
    refine ⟨_, (execute_cons_running hstep _).trans rfl, ?_⟩
    rw [Machine.peek_push, Machine.set_same]

theorem execute_negationCode (m : Machine) :
    ∃ next, execute negationCode m = .running next ∧ next.peek = -m.peek := by
  refine ⟨_, rfl, ?_⟩
  simp

def Machine.takeOperands (m : Machine) : Machine :=
  (m.drop.set .rdi m.peek).drop.set .rax (m.cells (m.top + 1))

@[simp] theorem Machine.rax_takeOperands (m : Machine) :
    m.takeOperands.registers .rax = m.cells (m.top + 1) :=
  set_same _ .rax _

@[simp] theorem Machine.rdi_takeOperands (m : Machine) :
    m.takeOperands.registers .rdi = m.peek := by
  rw [takeOperands, set_other _ (by decide)]
  exact set_same m.drop .rdi _

def Machine.readyToDivide (m : Machine) : Machine :=
  m.takeOperands.set .rdx (if (m.cells (m.top + 1)).msb then .allOnes 64 else 0)

theorem execute_readyToDivide (m : Machine) (rest : List Instruction) :
    execute ([.pop (.register .rdi), .pop (.register .rax), .cqo] ++ rest) m =
      execute rest m.readyToDivide := rfl

@[simp] theorem Machine.rax_readyToDivide (m : Machine) :
    m.readyToDivide.registers .rax = m.cells (m.top + 1) := by
  rw [readyToDivide, set_other _ (by decide), rax_takeOperands]

@[simp] theorem Machine.rdi_readyToDivide (m : Machine) :
    m.readyToDivide.registers .rdi = m.peek := by
  rw [readyToDivide, set_other _ (by decide), rdi_takeOperands]

theorem Machine.rdx_readyToDivide (m : Machine) :
    m.readyToDivide.registers .rdx =
      if (m.readyToDivide.registers .rax).msb then .allOnes 64 else 0 := by
  rw [rax_readyToDivide]
  exact set_same _ .rdx _

/-- An operation that is one instruction. -/
theorem execute_arithmetic {i : Instruction} {f : Word64 → Word64 → Word64}
    (hstep : ∀ m : Machine,
      i.step m = .running (m.set .rax (f (m.registers .rax) (m.registers .rdi))))
    (m : Machine) :
    ∃ next, execute ([.pop (.register .rdi), .pop (.register .rax)] ++ [i] ++
        [.push (.register .rax)]) m = .running next ∧
      next.peek = f (m.cells (m.top + 1)) m.peek := by
  have hrun := execute_cons_running (hstep m.takeOperands) [.push (.register .rax)]
  rw [m.rax_takeOperands, m.rdi_takeOperands] at hrun
  refine ⟨_, hrun, ?_⟩
  rw [Machine.peek_push, Machine.set_same]

theorem execute_operationCode {op : Op} {m : Machine} {w : Word64}
    (h : op.onWords (m.cells (m.top + 1)) m.peek = some w) :
    ∃ next, execute (operationCode op) m = .running next ∧ next.peek = w := by
  cases op with
  | add => exact Option.some.inj h ▸ execute_arithmetic (fun _ ↦ rfl) m
  | sub => exact Option.some.inj h ▸ execute_arithmetic (fun _ ↦ rfl) m
  | mul => exact Option.some.inj h ▸ execute_arithmetic (fun _ ↦ rfl) m
  | div =>
      rw [← m.rax_readyToDivide, ← m.rdi_readyToDivide] at h
      have hdivide : Instruction.idiv.step m.readyToDivide = .running _ :=
        Machine.divide_of_some m.rdx_readyToDivide h
      refine ⟨_, (execute_readyToDivide m _).trans
        ((execute_cons_running hdivide _).trans rfl), ?_⟩
      rw [Machine.peek_push, Machine.set_other _ (by decide), Machine.set_same]

/-! ## A tree with a value -/

namespace Expr

/-- The code of a right operand leaves the value of the left one just below its own. -/
theorem cells_below_code {e : Expr} (he : e.Complete) (hliterals : e.WordLiterals)
    {m next : Machine} (h : execute e.code m = .running next) :
    next.cells (next.top + 1) = m.peek := by
  have hleaves := leaves_of_execute_code he hliterals.short h
  rw [hleaves.top, Int.sub_add_cancel]
  exact hleaves.cells m.top Int.le_rfl

theorem execute_code {e : Expr} (he : e.Complete) (hliterals : e.WordLiterals) {w : Word64}
    (h : e.machineValue = some w) (m : Machine) :
    ∃ next, execute e.code m = .running next ∧ next.peek = w := by
  induction e generalizing m w with
  | literal place value =>
      obtain ⟨n, rfl⟩ := Option.isSome_iff_exists.mp he
      obtain rfl := Option.some.inj h
      exact execute_numberCode hliterals m
  | negation place operand ih =>
      obtain ⟨v, hv, rfl⟩ := Option.map_eq_some_iff.mp h
      obtain ⟨first, hfirst, rfl⟩ := ih he hliterals hv m
      obtain ⟨next, hnext, hpeek⟩ := execute_negationCode first
      exact ⟨next, (execute_append_running hfirst _).trans hnext, hpeek⟩
  | binary place op left right ihl ihr =>
      obtain ⟨hop, hl, hr⟩ := he
      obtain ⟨op, rfl⟩ := Option.isSome_iff_exists.mp hop
      obtain ⟨l, r, hvl, hvr, hw⟩ := machineValue_binary_eq_some h
      obtain ⟨first, hfirst, rfl⟩ := ihl hl hliterals.1 hvl m
      obtain ⟨second, hsecond, rfl⟩ := ihr hr hliterals.2 hvr first
      -- The left value has stayed where it was while the right operand was computed.
      rw [← cells_below_code hr hliterals.2 hsecond] at hw
      obtain ⟨next, hnext, hpeek⟩ := execute_operationCode hw
      refine ⟨next, ?_, hpeek⟩
      rw [code, List.append_assoc, execute_append_running hfirst,
        execute_append_running hsecond, hnext]
  | blank place => exact he.elim
  | missing => exact he.elim

/-! ## A tree without a value -/

/-- The run of the code of a tree stops at the division of `left` by `right`.  The nodes that
come before it in post-order all have values, and the machine gets past their code.  It then
holds the operands in its registers, but the division has no result. -/
structure StopsAt (e : Expr) (m : Machine) (before : List Expr) (left right : Expr) : Prop where
  site : ∃ place after, e.postorder = before ++ .binary place (some .div) left right :: after
  earlier : ∀ part ∈ before, part.machineValue ≠ none
  trap : ∃ l r next, left.machineValue = some l ∧ right.machineValue = some r ∧
    (r = 0 ∨ (l = .intMin 64 ∧ r = -1)) ∧
    execute (before.flatMap ownCode ++ [.pop (.register .rdi), .pop (.register .rax), .cqo]) m =
      .running next ∧
    next.registers .rax = l ∧ next.registers .rdi = r ∧ Instruction.idiv.step next = .trapped

variable {e part left right : Expr} {m next : Machine} {before first rest : List Expr}

/-- A sub-tree that stops makes the tree stop, given that everything before it has a value. -/
theorem StopsAt.within (h : part.StopsAt next before left right)
    (hpost : e.postorder = first ++ part.postorder ++ rest)
    (hfirst : ∀ node ∈ first, node.machineValue ≠ none)
    (hrun : execute (first.flatMap ownCode) m = .running next) :
    e.StopsAt m (first ++ before) left right := by
  obtain ⟨place, after, hsite⟩ := h.site
  obtain ⟨l, r, last, hl, hr, hlr, hlast, hregisters⟩ := h.trap
  refine ⟨⟨place, after ++ rest, ?_⟩, List.forall_mem_append.mpr ⟨hfirst, h.earlier⟩,
    l, r, last, hl, hr, hlr, ?_, hregisters⟩
  · simp [hpost, hsite]
  · rw [List.flatMap_append, List.append_assoc, execute_append_running hrun, hlast]

theorem stopsAt_division {place : Location} {l r : Word64}
    (hl : left.Complete) (hr : right.Complete)
    (hliterals : left.WordLiterals ∧ right.WordLiterals)
    (hvl : left.machineValue = some l) (hvr : right.machineValue = some r)
    (h : Op.div.onWords l r = none) (m : Machine) :
    (binary place (some .div) left right).StopsAt m (left.postorder ++ right.postorder)
      left right := by
  obtain ⟨first, hfirst, rfl⟩ := execute_code hl hliterals.1 hvl m
  obtain ⟨second, hsecond, rfl⟩ := execute_code hr hliterals.2 hvr first
  refine ⟨⟨place, [], rfl⟩, List.forall_mem_append.mpr
    ⟨machineValue_of_mem_postorder hvl, machineValue_of_mem_postorder hvr⟩,
    _, _, second.readyToDivide, hvl, hvr, Op.onWords_div_eq_none_iff.mp h, ?_, ?_,
    second.rdi_readyToDivide, ?_⟩
  · rw [List.flatMap_append, ← code_eq_flatMap hl, ← code_eq_flatMap hr, List.append_assoc,
      execute_append_running hfirst, execute_append_running hsecond]
    rfl
  · rw [second.rax_readyToDivide, cells_below_code hr hliterals.2 hsecond]
  · refine Machine.divide_of_none second.rdx_readyToDivide ?_
    rwa [second.rax_readyToDivide, second.rdi_readyToDivide, cells_below_code hr hliterals.2 hsecond]

/-- A tree without a value has a division at which its code stops. -/
theorem exists_stopsAt {e : Expr} (he : e.Complete) (hliterals : e.WordLiterals)
    (h : e.machineValue = none) (m : Machine) :
    ∃ before left right, e.StopsAt m before left right := by
  induction e generalizing m with
  | literal place value =>
      obtain ⟨n, rfl⟩ := Option.isSome_iff_exists.mp he
      cases h
  | negation place operand ih =>
      obtain ⟨before, left, right, hstop⟩ := ih he hliterals (Option.map_eq_none_iff.mp h) m
      have hpost : (negation place operand).postorder =
          [] ++ operand.postorder ++ [negation place operand] := rfl
      exact ⟨_, left, right, hstop.within hpost (List.forall_mem_nil _) rfl⟩
  | binary place op left right ihl ihr =>
      obtain ⟨hop, hl, hr⟩ := he
      obtain ⟨op, rfl⟩ := Option.isSome_iff_exists.mp hop
      cases hvl : left.machineValue with
      | none =>
          obtain ⟨before, inner, outer, hstop⟩ := ihl hl hliterals.1 hvl m
          have hpost : (binary place (some op) left right).postorder =
              [] ++ left.postorder ++ (right.postorder ++ [binary place (some op) left right]) :=
            List.append_assoc ..
          exact ⟨_, inner, outer, hstop.within hpost (List.forall_mem_nil _) rfl⟩
      | some l =>
          cases hvr : right.machineValue with
          | none =>
              -- The right operand starts where the whole code of the left one has ended.
              obtain ⟨first, hfirst, -⟩ := execute_code hl hliterals.1 hvl m
              obtain ⟨before, inner, outer, hstop⟩ := ihr hr hliterals.2 hvr first
              rw [code_eq_flatMap hl] at hfirst
              exact ⟨_, inner, outer,
                hstop.within rfl (machineValue_of_mem_postorder hvl) hfirst⟩
          | some r =>
              have hnone : op.onWords l r = none := by
                rwa [machineValue, hvl, hvr] at h
              cases op with
              | add => cases hnone
              | sub => cases hnone
              | mul => cases hnone
              | div => exact ⟨_, left, right, stopsAt_division hl hr hliterals hvl hvr hnone m⟩
  | blank place => exact he.elim
  | missing => exact he.elim

/-- The code of the tree, cut before the division at which it stops. -/
theorem StopsAt.code_eq (he : e.Complete) (h : e.StopsAt m before left right) :
    ∃ rest, e.code =
      (before.flatMap ownCode ++ [.pop (.register .rdi), .pop (.register .rax), .cqo]) ++
        .idiv :: rest := by
  obtain ⟨place, after, hsite⟩ := h.site
  refine ⟨.push (.register .rax) :: after.flatMap ownCode, ?_⟩
  rw [code_eq_flatMap he, hsite]
  simp [ownCode, operationCode, Op.instructions]

end Expr

end ArithAsm
