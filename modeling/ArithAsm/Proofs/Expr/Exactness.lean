import ArithAsm.Expr.Exact
import ArithAsm.Expr.Value
import Mathlib.Data.Int.ModEq

/-!
# Words and exact values

How far the value of a tree in wrapping words is its value in the integers.  Without divisions
the one is the signed word congruent to the other modulo `2 ^ 64`, whatever overflows on the way.
With divisions the two agree as long as nothing overflows.
-/

namespace ArithAsm

/-! ## Signed words -/

/-- A word is the low 64 bits of an integer, less `2 ^ 64` where the highest of them is set. -/
theorem wrap_eq_ite (n : Int) :
    wrap n = if n % 2 ^ 64 < 2 ^ 63 then n % 2 ^ 64 else n % 2 ^ 64 - 2 ^ 64 := rfl

theorem isWord_wrap (n : Int) : IsWord (wrap n) := by
  rw [wrap_eq_ite]
  split <;> constructor <;> omega

theorem wrap_modEq (n : Int) : wrap n ≡ n [ZMOD 2 ^ 64] := by
  rw [wrap_eq_ite]
  split
  · exact Int.mod_modEq n _
  · exact Int.sub_emod_right _ _ |>.trans (Int.mod_modEq n _)

/-- Signed words that are congruent are equal. -/
theorem IsWord.eq_of_modEq {n k : Int} (hn : IsWord n) (hk : IsWord k) (h : n ≡ k [ZMOD 2 ^ 64]) :
    n = k := by
  obtain ⟨c, hc⟩ := h.dvd
  obtain ⟨hnl, hnh⟩ := hn
  obtain ⟨hkl, hkh⟩ := hk
  omega

theorem wrap_eq_of_isWord {n : Int} (h : IsWord n) : wrap n = n :=
  (isWord_wrap n).eq_of_modEq h (wrap_modEq n)

theorem wrap_eq_wrap_of_modEq {n k : Int} (h : n ≡ k [ZMOD 2 ^ 64]) : wrap n = wrap k :=
  (isWord_wrap n).eq_of_modEq (isWord_wrap k) <|
    calc wrap n
      _ ≡ n [ZMOD 2 ^ 64] := wrap_modEq n
      _ ≡ k [ZMOD 2 ^ 64] := h
      _ ≡ wrap k [ZMOD 2 ^ 64] := (wrap_modEq k).symm

namespace Op

/-- An operation other than division has a result on all integers. -/
theorem exists_exact {op : Op} (hop : op ≠ div) (l r : Int) : ∃ n, op.exact l r = some n := by
  cases op with
  | div => exact absurd rfl hop
  | _ => exact ⟨_, rfl⟩

theorem exact_modEq {op : Op} (hop : op ≠ div) {l l' r r' n n' : Int}
    (hl : l ≡ l' [ZMOD 2 ^ 64]) (hr : r ≡ r' [ZMOD 2 ^ 64]) (hn : op.exact l r = some n)
    (hn' : op.exact l' r' = some n') : n ≡ n' [ZMOD 2 ^ 64] := by
  cases op with
  | add =>
      obtain rfl := Option.some.inj hn
      obtain rfl := Option.some.inj hn'
      exact hl.add hr
  | sub =>
      obtain rfl := Option.some.inj hn
      obtain rfl := Option.some.inj hn'
      exact hl.sub hr
  | mul =>
      obtain rfl := Option.some.inj hn
      obtain rfl := Option.some.inj hn'
      exact hl.mul hr
  | div => exact absurd rfl hop

/-- An operation on words is the exact one, wrapped. -/
theorem apply_of_exact {op : Op} {l r n : Int} (h : op.exact l r = some n) :
    apply (some op) l r = .ok (wrap n) := by
  cases op with
  | div =>
      rw [exact] at h
      split at h
      · cases h
      · next hzero =>
          obtain rfl := Option.some.inj h
          exact if_neg hzero
  | _ =>
      obtain rfl := Option.some.inj h
      rfl

end Op

namespace Expr

variable {e : Expr}

theorem mem_nodes_self (e : Expr) : e ∈ e.nodes := by
  cases e <;> exact List.mem_cons_self

theorem nodes_subset_of_mem_children {child : Expr} (h : child ∈ e.children) :
    child.nodes ⊆ e.nodes := by
  intro part hpart
  cases e with
  | negation place operand =>
      obtain rfl := List.mem_singleton.mp h
      exact List.mem_cons_of_mem _ hpart
  | binary place op left right =>
      refine List.mem_cons_of_mem _ (List.mem_append.mpr ?_)
      rcases List.mem_cons.mp h with rfl | h
      · exact Or.inl hpart
      · obtain rfl := List.mem_singleton.mp h
        exact Or.inr hpart
  | _ => cases h

theorem exactValue_binary {left right : Expr} {l r : Int} (hl : left.exactValue = some l)
    (hr : right.exactValue = some r) (place : Location) (op : Op) :
    (binary place (some op) left right).exactValue = op.exact l r := by
  simp [exactValue, hl, hr]

theorem value_binary {left right : Expr} {l r : Int} (hl : left.value = .ok l)
    (hr : right.value = .ok r) (place : Location) (op : Option Op) :
    (binary place op left right).value = Op.apply op l r := by
  rw [value, hl, hr]
  rfl

theorem value_negation {operand : Expr} {n : Int} (h : operand.value = .ok n) (place : Location) :
    (negation place operand).value = .ok (wrap (-n)) := by
  rw [value, h]
  rfl

/-! ## Trees without division -/

theorem DivisionFree.of_mem_children (h : e.DivisionFree) {child : Expr}
    (hchild : child ∈ e.children) : child.DivisionFree :=
  fun part hpart ↦ h part (nodes_subset_of_mem_children hchild hpart)

theorem value_eq_wrap_exactValue (he : e.Complete) (hfree : e.DivisionFree) :
    ∃ n, e.exactValue = some n ∧ e.value = .ok (wrap n) := by
  induction e with
  | literal place value =>
      obtain ⟨n, rfl⟩ := Option.isSome_iff_exists.mp he
      exact ⟨n, rfl, rfl⟩
  | negation place operand ih =>
      obtain ⟨n, hn, hv⟩ := ih he (hfree.of_mem_children List.mem_cons_self)
      refine ⟨-n, ?_, ?_⟩
      · simp [exactValue, hn]
      · rw [value_negation hv, wrap_eq_wrap_of_modEq (wrap_modEq n).neg]
  | binary place op left right ihl ihr =>
      obtain ⟨hop, hl, hr⟩ := he
      obtain ⟨op, rfl⟩ := Option.isSome_iff_exists.mp hop
      have hdiv : op ≠ .div := by
        rintro rfl
        exact hfree _ (mem_nodes_self _) place left right rfl
      obtain ⟨l, hl, hvl⟩ := ihl hl (hfree.of_mem_children List.mem_cons_self)
      obtain ⟨r, hr, hvr⟩ := ihr hr (hfree.of_mem_children (List.mem_cons_of_mem _ List.mem_cons_self))
      obtain ⟨n, hn⟩ := Op.exists_exact hdiv l r
      obtain ⟨k, hk⟩ := Op.exists_exact hdiv (wrap l) (wrap r)
      refine ⟨n, (exactValue_binary hl hr place op).trans hn, ?_⟩
      rw [value_binary hvl hvr, Op.apply_of_exact hk]
      -- The exact results on the words and on the integers they stand for are congruent.
      have hmod : k ≡ n [ZMOD 2 ^ 64] := Op.exact_modEq hdiv (wrap_modEq l) (wrap_modEq r) hk hn
      rw [wrap_eq_wrap_of_modEq hmod]
  | blank place => exact he.elim
  | missing => exact he.elim

/-- Without divisions a tree has a value, and it is the one signed word that is congruent to the
value in the integers. -/
theorem exists_value_modEq_exactValue (he : e.Complete) (hfree : e.DivisionFree) :
    ∃ n v, e.exactValue = some n ∧ e.value = .ok v ∧
      (-2 ^ 63 ≤ v ∧ v ≤ 2 ^ 63 - 1 ∧ v ≡ n [ZMOD 2 ^ 64]) ∧
      ∀ u, -2 ^ 63 ≤ u → u ≤ 2 ^ 63 - 1 → u ≡ n [ZMOD 2 ^ 64] → u = v := by
  obtain ⟨n, hn, hv⟩ := value_eq_wrap_exactValue he hfree
  obtain ⟨hlow, hhigh⟩ := isWord_wrap n
  refine ⟨n, wrap n, hn, hv, ⟨by omega, by omega, wrap_modEq n⟩, ?_⟩
  intro u hlow' hhigh' hu
  have hword : IsWord u := ⟨by omega, by omega⟩
  exact hword.eq_of_modEq (isWord_wrap n) (hu.trans (wrap_modEq n).symm)

/-- The product of `2 ^ 70 - 1` and `-(2 ^ 65 + 3)` less `5` is `-2` modulo `2 ^ 64`. -/
theorem exists_value_modEq_product :
    let e := binary default (some .sub)
      (binary default (some .mul) (literal default (some 1180591620717411303423))
        (negation default (literal default (some 36893488147419103235))))
      (literal default (some 5))
    (e.Complete ∧ e.DivisionFree) ∧ e.value = .ok (-2) ∧
    ∃ n v, e.exactValue = some n ∧ e.value = .ok v ∧
      (-2 ^ 63 ≤ v ∧ v ≤ 2 ^ 63 - 1 ∧ v ≡ n [ZMOD 2 ^ 64]) ∧
      ∀ u, -2 ^ 63 ≤ u → u ≤ 2 ^ 63 - 1 → u ≡ n [ZMOD 2 ^ 64] → u = v := by
  intro e
  have he : e.Complete := ⟨rfl, ⟨rfl, rfl, rfl⟩, rfl⟩
  have hfree : e.DivisionFree := by simp [e, DivisionFree, nodes]
  exact ⟨⟨he, hfree⟩, rfl, exists_value_modEq_exactValue he hfree⟩

end Expr

/-! ## Quotients without a fraction -/

/-- What is left over after taking `q` times the divisor from the dividend is smaller than the
divisor and, unless it is zero, has the sign of the dividend. -/
def IsQuotient (l r q : Int) : Prop :=
  ∃ m, l = q * r + m ∧ m.natAbs < r.natAbs ∧ (m = 0 ∨ m.sign = l.sign)

theorem isQuotient_tdiv {l r : Int} (hr : r ≠ 0) : IsQuotient l r (l.tdiv r) := by
  refine ⟨l.tmod r, (Int.tdiv_mul_add_tmod l r).symm, ?_, ?_⟩
  · rw [Int.natAbs_tmod]
    exact Nat.mod_lt _ (Int.natAbs_pos.mpr hr)
  · rw [Int.sign_tmod]
    split
    · next hdvd => exact Or.inl (Int.tmod_eq_zero_of_dvd hdvd)
    · exact Or.inr rfl

theorem IsQuotient.divisor_ne_zero {l r q : Int} (h : IsQuotient l r q) : r ≠ 0 := by
  obtain ⟨m, -, hm, -⟩ := h
  omega

theorem IsQuotient.unique {l r q q' : Int} (h : IsQuotient l r q) (h' : IsQuotient l r q') :
    q = q' := by
  obtain ⟨m, hl, hm, hsign⟩ := h
  obtain ⟨m', hl', hm', hsign'⟩ := h'
  -- What is left over has the same sign in both, so the two differ by less than the divisor.
  have hnear : (m' - m).natAbs < r.natAbs := by
    rcases Int.lt_trichotomy l 0 with hneg | hzero | hpos
    · rw [Int.sign_eq_neg_one_of_neg hneg, Int.sign_eq_neg_one_iff_neg] at hsign hsign'
      omega
    · rw [hzero, Int.sign_zero, Int.sign_eq_zero_iff_zero] at hsign hsign'
      omega
    · rw [Int.sign_eq_one_of_pos hpos, Int.sign_eq_one_iff_pos] at hsign hsign'
      omega
  have hmul : (q - q') * r = m' - m := by
    rw [Int.sub_mul]
    omega
  have hsmall : (q - q').natAbs * r.natAbs < 1 * r.natAbs := by
    rw [← Int.natAbs_mul, hmul, Nat.one_mul]
    exact hnear
  have hlt : (q - q').natAbs < 1 := Nat.lt_of_mul_lt_mul_right hsmall
  omega

theorem Op.exact_div_eq_some_iff {l r q : Int} : div.exact l r = some q ↔ IsQuotient l r q := by
  constructor
  · intro h
    rw [exact] at h
    split at h
    · cases h
    · next hr =>
        obtain rfl := Option.some.inj h
        exact isQuotient_tdiv hr
  · intro h
    rw [exact, if_neg h.divisor_ne_zero, (isQuotient_tdiv h.divisor_ne_zero).unique h]

/-! ## Trees within the words -/

/-- The integers that an operation may yield on two operands. -/
def Op.Yields : Op → Int → Int → Int → Prop
  | add, l, r, n => n = l + r
  | sub, l, r, n => n = l - r
  | mul, l, r, n => n = l * r
  | div, l, r, n => IsQuotient l r n

theorem Op.yields_iff {op : Op} {l r n : Int} : op.Yields l r n ↔ op.exact l r = some n := by
  cases op with
  | div => exact exact_div_eq_some_iff.symm
  | _ => exact ⟨fun h ↦ congrArg some h.symm, fun h ↦ (Option.some.inj h).symm⟩

namespace Expr

/-- What a tree is worth in the integers. -/
inductive Worth : Expr → Int → Prop where
  | literal (place : Location) (n : Int) : Worth (.literal place (some n)) n
  | negation (place : Location) {operand : Expr} {n : Int} (h : Worth operand n) :
      Worth (.negation place operand) (-n)
  | binary (place : Location) {op : Op} {left right : Expr} {l r n : Int} (hl : Worth left l)
      (hr : Worth right r) (hn : op.Yields l r n) : Worth (.binary place (some op) left right) n

variable {e : Expr} {n : Int}

theorem Worth.exactValue_eq_some (h : e.Worth n) : e.exactValue = some n := by
  induction h with
  | literal place n => rfl
  | negation place h ih => simp [exactValue, ih]
  | binary place hl hr hn ihl ihr =>
      rw [exactValue_binary ihl ihr]
      exact Op.yields_iff.mp hn

theorem worth_of_exactValue (h : e.exactValue = some n) : e.Worth n := by
  induction e generalizing n with
  | literal place value =>
      obtain rfl : value = some n := h
      exact .literal place n
  | negation place operand ih =>
      obtain ⟨k, hk, hneg⟩ := Option.bind_eq_some_iff.mp h
      obtain rfl := Option.some.inj hneg
      exact .negation place (ih hk)
  | binary place op left right ihl ihr =>
      obtain ⟨op, rfl, h⟩ := Option.bind_eq_some_iff.mp h
      obtain ⟨l, hl, h⟩ := Option.bind_eq_some_iff.mp h
      obtain ⟨r, hr, h⟩ := Option.bind_eq_some_iff.mp h
      exact .binary place (ihl hl) (ihr hr) (Op.yields_iff.mpr h)
  | blank place => cases h
  | missing => cases h

theorem Worth.unique {k : Int} (h : e.Worth n) (h' : e.Worth k) : n = k :=
  Option.some.inj (h.exactValue_eq_some.symm.trans h'.exactValue_eq_some)

theorem exact_iff_forall_worth :
    e.Exact ↔ ∀ part ∈ e.nodes, ∃ n, part.Worth n ∧ IsWord n := by
  have hpart : ∀ part : Expr, (∃ n, part.exactValue = some n ∧ IsWord n) ↔
      ∃ n, part.Worth n ∧ IsWord n := fun part ↦
    exists_congr fun n ↦ and_congr_left' ⟨worth_of_exactValue, Worth.exactValue_eq_some⟩
  exact forall₂_congr fun part _ ↦ hpart part

theorem Exact.of_mem_children (h : e.Exact) {child : Expr} (hchild : child ∈ e.children) :
    child.Exact :=
  fun part hpart ↦ h part (nodes_subset_of_mem_children hchild hpart)

/-- The root is worth a word, so wrapping changes nothing. -/
theorem Worth.wrap_eq (h : e.Worth n) (hexact : e.Exact) : wrap n = n := by
  obtain ⟨k, hk, hword⟩ := hexact e (mem_nodes_self e)
  obtain rfl := h.unique (worth_of_exactValue hk)
  exact wrap_eq_of_isWord hword

/-- A tree is worth the same in words as in the integers where every sub-tree is worth a word. -/
theorem Worth.value_eq (h : e.Worth n) (hexact : e.Exact) : e.value = .ok n := by
  induction h with
  | literal place n =>
      have hn : wrap n = n := (Worth.literal place n).wrap_eq hexact
      rw [value, hn]
  | @negation place operand n h ih =>
      have hn : wrap (-n) = -n := (Worth.negation place h).wrap_eq hexact
      rw [value_negation (ih (hexact.of_mem_children List.mem_cons_self)), hn]
  | @binary place op left right l r n hl hr hop ihl ihr =>
      have hn : wrap n = n := (Worth.binary place hl hr hop).wrap_eq hexact
      have hvl : left.value = .ok l := ihl (hexact.of_mem_children List.mem_cons_self)
      have hvr : right.value = .ok r :=
        ihr (hexact.of_mem_children (List.mem_cons_of_mem _ List.mem_cons_self))
      rw [value_binary hvl hvr, Op.apply_of_exact (Op.yields_iff.mp hop), hn]

/-- Where every sub-tree is worth a signed word, which takes that no divisor is zero, the value of
the tree is what it is worth in the integers. -/
theorem exists_worth_eq_value
    (h : ∀ part ∈ e.nodes, ∃ n, part.Worth n ∧ -2 ^ 63 ≤ n ∧ n ≤ 2 ^ 63 - 1) :
    ∃ n, e.Worth n ∧ e.value = .ok n ∧ ∀ k, e.Worth k → k = n := by
  have hexact : e.Exact := by
    refine exact_iff_forall_worth.mpr fun part hpart ↦ ?_
    obtain ⟨n, hn, hlow, hhigh⟩ := h part hpart
    exact ⟨n, hn, by omega, by omega⟩
  obtain ⟨n, hn, -, -⟩ := h e (mem_nodes_self e)
  exact ⟨n, hn, hn.value_eq hexact, fun k hk ↦ hk.unique hn⟩

/-- The least word is reached from `-(2 ^ 63 - 1)`, and its division by three leaves `-2`. -/
theorem exists_worth_eq_value_quotient :
    let least := binary default (some .sub)
      (negation default (literal default (some 9223372036854775807))) (literal default (some 1))
    let e := binary default (some .div) least (literal default (some 3))
    (∀ part ∈ e.nodes, ∃ n, part.Worth n ∧ -2 ^ 63 ≤ n ∧ n ≤ 2 ^ 63 - 1) ∧
    e.value = .ok (-3074457345618258602) ∧
    ∃ n, e.Worth n ∧ e.value = .ok n ∧ ∀ k, e.Worth k → k = n := by
  intro least e
  have hliteral : ∀ n, (literal default (some n)).Worth n := Worth.literal default
  have hgreatest := Worth.negation default (hliteral 9223372036854775807)
  have hleast : least.Worth (-9223372036854775808) :=
    .binary default hgreatest (hliteral 1) rfl
  have he : e.Worth (-3074457345618258602) :=
    .binary default hleast (hliteral 3) ⟨-2, by decide, by decide, Or.inr (by decide)⟩
  have h : ∀ part ∈ e.nodes, ∃ n, part.Worth n ∧ -2 ^ 63 ≤ n ∧ n ≤ 2 ^ 63 - 1 := by
    simp only [e, least, nodes, List.cons_append, List.nil_append, List.forall_mem_cons]
    exact ⟨⟨_, he, by decide⟩, ⟨_, hleast, by decide⟩, ⟨_, hgreatest, by decide⟩,
      ⟨_, hliteral _, by decide⟩, ⟨_, hliteral _, by decide⟩, ⟨_, hliteral _, by decide⟩, by simp⟩
  exact ⟨h, rfl, exists_worth_eq_value h⟩

end Expr

end ArithAsm
