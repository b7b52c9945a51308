import ArithAsm.Proofs.Assembly.Listing
import ArithAsm.Proofs.Assembly.StackProgram
import ArithAsm.Proofs.Compilation.Accepted

/-!
# Predicting a program by the value of its tree

A tree and its program agree on sums, differences, products and negations, and on all quotients
but one.  Dividing the least signed word by `-1` wraps around in the value of a tree, but traps
on the machine.  Up to this one division the value says what the program does.
-/

namespace ArithAsm

namespace Op

theorem apply_add (l r : Word64) :
    Op.apply (some .add) l.toInt r.toInt = .ok (l + r).toInt :=
  congrArg Except.ok (BitVec.toInt_add l r).symm

theorem apply_sub (l r : Word64) :
    Op.apply (some .sub) l.toInt r.toInt = .ok (l - r).toInt :=
  congrArg Except.ok BitVec.toInt_sub.symm

theorem apply_mul (l r : Word64) :
    Op.apply (some .mul) l.toInt r.toInt = .ok (l * r).toInt :=
  congrArg Except.ok (BitVec.toInt_mul l r).symm

theorem apply_div {l r : Word64} (h : r ≠ 0) :
    Op.apply (some .div) l.toInt r.toInt =
      .ok (BitVec.ofInt 64 (l.toInt.tdiv r.toInt)).toInt := by
  have hne : r.toInt ≠ 0 := fun heq ↦ h (BitVec.toInt_inj.mp heq)
  rw [apply, if_neg hne, BitVec.toInt_ofInt]
  rfl

theorem apply_of_onWords {op : Op} {l r w : Word64} (h : op.onWords l r = some w) :
    Op.apply (some op) l.toInt r.toInt = .ok w.toInt := by
  cases op with
  | add => exact Option.some.inj h ▸ apply_add l r
  | sub => exact Option.some.inj h ▸ apply_sub l r
  | mul => exact Option.some.inj h ▸ apply_mul l r
  | div =>
      rw [onWords] at h
      split at h
      · cases h
      · next hmeaning => exact Option.some.inj h ▸ apply_div (not_or.mp hmeaning).1

end Op

namespace Expr

/-- Somewhere in a tree the least signed word is divided by `-1`. -/
def Overflows (e : Expr) : Prop :=
  ∃ place left right, .binary place (some .div) left right ∈ e.postorder ∧
    left.value = .ok (-9223372036854775808) ∧ right.value = .ok (-1)

theorem Overflows.of_subset {part e : Expr} (h : part.Overflows)
    (hsubset : part.postorder ⊆ e.postorder) : e.Overflows := by
  obtain ⟨place, left, right, hmem, hvalues⟩ := h
  exact ⟨place, left, right, hsubset hmem, hvalues⟩

theorem value_of_machineValue {e : Expr} {w : Word64} (h : e.machineValue = some w) :
    e.value = .ok w.toInt := by
  induction e generalizing w with
  | literal place value =>
      cases value with
      | none => cases h
      | some n =>
          rw [← Option.some.inj h, BitVec.toInt_ofInt]
          rfl
  | negation place operand ih =>
      obtain ⟨v, hv, rfl⟩ := Option.map_eq_some_iff.mp h
      rw [value, ih hv, BitVec.toInt_neg]
      rfl
  | binary place op left right ihl ihr =>
      cases op with
      | none => cases h
      | some op =>
          obtain ⟨l, r, hl, hr, hw⟩ := machineValue_binary_eq_some h
          rw [value, ihl hl, ihr hr]
          exact Op.apply_of_onWords hw
  | blank place => cases h
  | missing => cases h

/-- A tree without gaps has a value unless a divisor is zero. -/
theorem divisionByZero_of_value {e : Expr} (he : e.Complete) {fault : ValueFault}
    (h : e.value = .error fault) : fault = .divisionByZero := by
  induction e with
  | literal place value =>
      obtain ⟨n, rfl⟩ := Option.isSome_iff_exists.mp he
      cases h
  | negation place operand ih =>
      rw [value] at h
      cases hv : operand.value with
      | error found => rw [hv] at h; exact ih he (hv.trans h)
      | ok v => rw [hv] at h; cases h
  | binary place op left right ihl ihr =>
      obtain ⟨hop, hl, hr⟩ := he
      obtain ⟨op, rfl⟩ := Option.isSome_iff_exists.mp hop
      rw [value] at h
      cases hvl : left.value with
      | error found => rw [hvl] at h; exact ihl hl (hvl.trans h)
      | ok l =>
          rw [hvl] at h
          cases hvr : right.value with
          | error found => rw [hvr] at h; exact ihr hr (hvr.trans h)
          | ok r =>
              rw [hvr] at h
              change Op.apply (some op) l r = .error fault at h
              cases op with
              | add => cases h
              | sub => cases h
              | mul => cases h
              | div =>
                  rw [Op.apply] at h
                  split at h
                  · exact (Except.error.inj h).symm
                  · cases h
  | blank place => exact he.elim
  | missing => exact he.elim

theorem Overflows.machineValue_eq_none {e : Expr} (h : e.Overflows) : e.machineValue = none := by
  obtain ⟨place, left, right, hmem, hl, hr⟩ := h
  have hnode : (binary place (some .div) left right).machineValue = none := by
    refine Option.eq_none_iff_forall_ne_some.mpr fun w hw ↦ ?_
    obtain ⟨l, r, hvl, hvr, hdiv⟩ := machineValue_binary_eq_some hw
    -- The words of the operands are told by their values.
    have hleast : l.toInt = -9223372036854775808 :=
      Except.ok.inj ((value_of_machineValue hvl).symm.trans hl)
    have hminus : r.toInt = -1 := Except.ok.inj ((value_of_machineValue hvr).symm.trans hr)
    have hnone : Op.div.onWords l r = none :=
      Op.onWords_div_eq_none_iff.mpr (.inr ⟨BitVec.toInt_inj.mp hleast, BitVec.toInt_inj.mp hminus⟩)
    rw [hnone] at hdiv
    cases hdiv
  refine Option.eq_none_iff_forall_ne_some.mpr fun w hw ↦ ?_
  exact machineValue_of_mem_postorder hw _ hmem hnode

/-- Where the machine has no value, a divisor is zero or a quotient is no word. -/
theorem divisionByZero_or_overflows {e : Expr} (he : e.Complete) (h : e.machineValue = none) :
    e.value = .error .divisionByZero ∨ e.Overflows := by
  induction e with
  | literal place value =>
      obtain ⟨n, rfl⟩ := Option.isSome_iff_exists.mp he
      cases h
  | negation place operand ih =>
      rcases ih he (Option.map_eq_none_iff.mp h) with hzero | hover
      · exact .inl (by rw [value, hzero]; rfl)
      · exact .inr (hover.of_subset (List.subset_append_left _ _))
  | binary place op left right ihl ihr =>
      obtain ⟨hop, hl, hr⟩ := he
      obtain ⟨op, rfl⟩ := Option.isSome_iff_exists.mp hop
      cases hvl : left.machineValue with
      | none =>
          rcases ihl hl hvl with hzero | hover
          · exact .inl (by rw [value, hzero]; rfl)
          · refine .inr (hover.of_subset ?_)
            exact List.Subset.trans (List.subset_append_left _ _) (List.subset_append_left _ _)
      | some l =>
          have hl := value_of_machineValue hvl
          cases hvr : right.machineValue with
          | none =>
              rcases ihr hr hvr with hzero | hover
              · exact .inl (by rw [value, hl, hzero]; rfl)
              · refine .inr (hover.of_subset ?_)
                exact List.Subset.trans (List.subset_append_right _ _)
                  (List.subset_append_left _ _)
          | some r =>
              have hr := value_of_machineValue hvr
              have hnone : op.onWords l r = none := by rwa [machineValue, hvl, hvr] at h
              cases op with
              | add => cases hnone
              | sub => cases hnone
              | mul => cases hnone
              | div =>
                  rcases Op.onWords_div_eq_none_iff.mp hnone with rfl | ⟨rfl, rfl⟩
                  · exact .inl (by rw [value, hl, hr]; rfl)
                  · exact .inr ⟨place, left, right, List.mem_append_right _ (.head _), hl, hr⟩
  | blank place => exact he.elim
  | missing => exact he.elim

theorem machineValue_eq_none_iff {e : Expr} (he : e.Complete) :
    e.machineValue = none ↔ e.value = .error .divisionByZero ∨ e.Overflows := by
  refine ⟨divisionByZero_or_overflows he, ?_⟩
  rintro (hzero | hover)
  · refine Option.eq_none_iff_forall_ne_some.mpr fun w hw ↦ ?_
    cases hzero.symm.trans (value_of_machineValue hw)
  · exact hover.machineValue_eq_none

/-- The value of a tree is the word that its code computes, unless a quotient is no word. -/
theorem exists_machineValue {e : Expr} (he : e.Complete) {v : Int} (h : e.value = .ok v)
    (hover : ¬ e.Overflows) : ∃ w, e.machineValue = some w ∧ w.toInt = v := by
  have hsome : e.machineValue ≠ none := by
    rw [Ne, machineValue_eq_none_iff he, h]
    rintro (hzero | hover')
    · cases hzero
    · exact hover hover'
  obtain ⟨w, hw⟩ := Option.ne_none_iff_exists'.mp hsome
  exact ⟨w, hw, Except.ok.inj ((value_of_machineValue hw).symm.trans h)⟩

theorem execute_programCode_eq_trapped_iff {e : Expr} (he : e.Complete)
    (hliterals : e.WordLiterals) (m : Machine) :
    execute e.programCode m = .trapped ↔ e.machineValue = none := by
  cases hvalue : e.machineValue with
  | none =>
      obtain ⟨before, left, right, hstop⟩ := exists_stopsAt he hliterals hvalue m
      exact iff_of_true (hstop.execute_programCode he) rfl
  | some w =>
      obtain ⟨last, hlast, -⟩ := execute_programCode he hliterals hvalue m
      rw [hlast]
      exact iff_of_false nofun nofun

end Expr

theorem toNat_emod_byte (w : Word64) : (w.toNat : Int) % 256 = w.toInt % 256 := by
  rw [BitVec.toInt_eq_toNat_cond]
  split <;> omega

namespace Compilation

/-- The value of the tree of a compiled text predicts how the program runs that stands in the
emitted text.  A value is what the program returns, and an evaluation that fails means that it
traps.  It also traps where the least signed word is divided by `-1`, and only then although
there is a value. -/
theorem execute_emitted {source text : String} {compiled : Compiled}
    (h : (compile {} source text).result = .ok compiled) (m : Machine) :
    ∃ code, codeOfText? "main" compiled.assembly = some code ∧
      (∀ v, compiled.tree.value = .ok v → ¬ compiled.tree.Overflows →
        ∃ last, execute code m = .returned last ∧ (last.registers .rax).toInt = v ∧
          ((last.registers .rax).toNat : Int) % 256 = v % 256) ∧
      (∀ fault, compiled.tree.value = .error fault →
        fault = .divisionByZero ∧ execute code m = .trapped) ∧
      (execute code m = .trapped ↔
        compiled.tree.value = .error .divisionByZero ∨ compiled.tree.Overflows) := by
  obtain ⟨he, hliterals⟩ := complete_tree_of_compile h
  have hcode : codeOfText? "main" compiled.assembly = some compiled.tree.programCode := by
    rw [Compiled.assembly, lines_of_compile h]
    exact compiled.tree.codeOfText?_programText
  have htrap : execute compiled.tree.programCode m = .trapped ↔
      compiled.tree.value = .error .divisionByZero ∨ compiled.tree.Overflows :=
    (Expr.execute_programCode_eq_trapped_iff he hliterals m).trans
      (Expr.machineValue_eq_none_iff he)
  refine ⟨_, hcode, fun v hv hover ↦ ?_, fun fault hfault ↦ ?_, htrap⟩
  · obtain ⟨w, hw, rfl⟩ := Expr.exists_machineValue he hv hover
    obtain ⟨last, hlast, rfl, -⟩ := Expr.execute_programCode he hliterals hw m
    exact ⟨last, hlast, rfl, toNat_emod_byte _⟩
  · obtain rfl := Expr.divisionByZero_of_value he hfault
    exact ⟨rfl, htrap.mpr (.inl hfault)⟩

/-- The text that divides the least signed word by `-1` has a value, but its program traps. -/
theorem execute_emitted_least_by_minus_one :
    let m : Machine := { registers := fun _ ↦ 0, cells := fun _ ↦ 0, top := 0 }
    ∃ compiled code,
      (compile {} "<input>" "(-9223372036854775807-1)/(-1)").result = .ok compiled ∧
      compiled.tree.value = .ok (-9223372036854775808) ∧
      codeOfText? "main" compiled.assembly = some code ∧ execute code m = .trapped := by
  intro m
  let place := fun column : Int ↦ ({ line := 1, column } : Location)
  let least : Expr := .binary (place 22) (some .sub)
    (.negation (place 2) (.literal (place 3) (some 9223372036854775807)))
    (.literal (place 23) (some 1))
  let minusOne : Expr := .negation (place 27) (.literal (place 28) (some 1))
  have htree : (compile {} "<input>" "(-9223372036854775807-1)/(-1)").result.toOption.map
      Compiled.tree = some (.binary (place 25) (some .div) least minusOne) := by decide +kernel
  obtain ⟨compiled, hcompiled, htree⟩ := Option.map_eq_some_iff.mp htree
  have h : (compile {} "<input>" "(-9223372036854775807-1)/(-1)").result = .ok compiled := by
    revert hcompiled
    cases (compile {} "<input>" "(-9223372036854775807-1)/(-1)").result with
    | error failure => exact nofun
    | ok found => exact fun hfound ↦ congrArg Except.ok (Option.some.inj hfound)
  have hover : compiled.tree.Overflows := by
    rw [htree]
    exact ⟨_, least, minusOne, List.mem_append_right _ (.head _), rfl, rfl⟩
  obtain ⟨code, hcode, -, -, htrap⟩ := execute_emitted h m
  exact ⟨compiled, code, h, by rw [htree]; rfl, hcode, htrap.mpr (.inr hover)⟩

end Compilation

end ArithAsm
