import Mathlib.Data.List.Infix
import ArithAsm.Expr.Address
import ArithAsm.Expr.Visitor

/-!
# Visiting the topmost nodes

A visitor that puts the nodes of some classes on record and does not go below them meets just
those that lie below no other such node.  They come on record in pre-order, each once.
-/

namespace ArithAsm

namespace Expr

/-- The node at the address has a class with one of the names. -/
def HandledAt (handled : List String) (e : Expr) (address : List Nat) : Prop :=
  ∃ part, e.partAt? address = some part ∧ part.nodeClass.name ∈ handled

/-- The node at the address has a class with one of the names, and no node above it has. -/
def TopmostAt (handled : List String) (e : Expr) (address : List Nat) : Prop :=
  e.HandledAt handled address ∧
    ∀ above, above <+: address → above ≠ address → ¬e.HandledAt handled above

@[elab_as_elim]
theorem children_induction {motive : Expr → Prop}
    (node : ∀ e, (∀ child ∈ e.children, motive child) → motive e) (e : Expr) : motive e := by
  induction e with
  | negation place operand ih =>
      apply node
      simpa [children] using ih
  | binary place op left right ihl ihr =>
      apply node
      simpa [children] using ⟨ihl, ihr⟩
  | _ =>
      apply node
      simp [children]

section Topmost

variable {handled : List String} {e : Expr}

instance (address : List Nat) : Decidable (e.HandledAt handled address) :=
  inferInstanceAs (Decidable (∃ part ∈ e.partAt? address, part.nodeClass.name ∈ handled))

instance (address : List Nat) : Decidable (e.TopmostAt handled address) :=
  decidable_of_iff (e.HandledAt handled address ∧
    ∀ above ∈ address.inits, above ≠ address → ¬e.HandledAt handled above) <| by
      simp only [TopmostAt, List.mem_inits]

theorem handledAt_nil : e.HandledAt handled [] ↔ e.nodeClass.name ∈ handled := by
  simp [HandledAt, partAt?]

theorem handledAt_cons {child : Expr} {k : Nat} (hchild : e.children[k]? = some child)
    (address : List Nat) :
    e.HandledAt handled (k :: address) ↔ child.HandledAt handled address := by
  simp [HandledAt, partAt?, hchild]

theorem topmostAt_nil : e.TopmostAt handled [] ↔ e.nodeClass.name ∈ handled := by
  rw [TopmostAt, handledAt_nil]
  refine and_iff_left ?_
  intro above hprefix hne
  exact absurd (List.prefix_nil.mp hprefix) hne

theorem not_topmostAt_cons (hroot : e.nodeClass.name ∈ handled) (k : Nat)
    (address : List Nat) : ¬e.TopmostAt handled (k :: address) := by
  intro h
  exact h.2 [] List.nil_prefix (List.cons_ne_nil k address).symm (handledAt_nil.mpr hroot)

theorem topmostAt_cons (hroot : e.nodeClass.name ∉ handled) {child : Expr} {k : Nat}
    (hchild : e.children[k]? = some child) (address : List Nat) :
    e.TopmostAt handled (k :: address) ↔ child.TopmostAt handled address := by
  unfold TopmostAt
  rw [handledAt_cons hchild]
  refine and_congr_right fun _ ↦ ⟨?_, ?_⟩
  · intro habove above hprefix hne
    rw [← handledAt_cons hchild]
    exact habove (k :: above) (List.cons_prefix_cons.mpr ⟨rfl, hprefix⟩) (by simpa using hne)
  · intro habove above hprefix hne
    cases above with
    | nil => exact mt handledAt_nil.mp hroot
    | cons j above =>
        obtain ⟨rfl, hbelow⟩ := List.cons_prefix_cons.mp hprefix
        rw [handledAt_cons hchild]
        exact habove above hbelow (by simpa using hne)

/-- The addresses of the topmost nodes, in pre-order. -/
def topmostAddresses (handled : List String) (e : Expr) : List (List Nat) :=
  e.addresses.filter (e.TopmostAt handled ·)

theorem mem_topmostAddresses {address : List Nat} :
    address ∈ e.topmostAddresses handled ↔ e.TopmostAt handled address := by
  simp only [topmostAddresses, List.mem_filter, decide_eq_true_eq, and_iff_right_iff_imp]
  rintro ⟨⟨part, hpart, -⟩, -⟩
  exact mem_addresses.mpr ⟨part, hpart⟩

theorem pairwise_topmostAddresses (handled : List String) (e : Expr) :
    (e.topmostAddresses handled).Pairwise (· < ·) :=
  e.pairwise_addresses.filter _

theorem topmostAddresses_of_mem (hroot : e.nodeClass.name ∈ handled) :
    e.topmostAddresses handled = [[]] := by
  have hbelow (k : Nat) (list : List (List Nat)) :
      (list.map (k :: ·)).filter (e.TopmostAt handled ·) = [] := by
    simp [List.filter_eq_nil_iff, not_topmostAt_cons hroot]
  have hself := topmostAt_nil.mpr hroot
  cases e <;> simp [topmostAddresses, addresses, hself, hbelow]

theorem filter_map_cons (hroot : e.nodeClass.name ∉ handled) {child : Expr} {k : Nat}
    (hchild : e.children[k]? = some child) :
    (child.addresses.map (k :: ·)).filter (e.TopmostAt handled ·) =
      (child.topmostAddresses handled).map (k :: ·) := by
  simp [List.filter_map, topmostAddresses, Function.comp_def, topmostAt_cons hroot hchild]

theorem topmost_of_mem (hroot : e.nodeClass.name ∈ handled) :
    (e.topmost fun c ↦ handled.contains c.name) = [e] := by
  have hchosen : handled.contains e.nodeClass.name = true := List.contains_iff_mem.mpr hroot
  cases e <;> exact if_pos hchosen

theorem topmost_of_notMem (hroot : e.nodeClass.name ∉ handled) :
    (e.topmost fun c ↦ handled.contains c.name) =
      e.children.flatMap (·.topmost fun c ↦ handled.contains c.name) := by
  have hchosen : ¬handled.contains e.nodeClass.name = true := mt List.contains_iff_mem.mp hroot
  cases e with
  | negation place operand =>
      rw [topmost, if_neg hchosen, children, List.flatMap_singleton]
  | binary place op left right =>
      rw [topmost, if_neg hchosen, children, List.flatMap_cons, List.flatMap_singleton]
  | _ => exact if_neg hchosen

/-- The sub-trees at these addresses are those that the recursion over the tree gathers. -/
theorem map_partAt?_topmostAddresses (handled : List String) (e : Expr) :
    (e.topmostAddresses handled).map e.partAt? =
      (e.topmost fun c ↦ handled.contains c.name).map some := by
  induction e using children_induction with
  | node e ih =>
      by_cases hroot : e.nodeClass.name ∈ handled
      · rw [topmostAddresses_of_mem hroot, topmost_of_mem hroot]
        simp [partAt?]
      · rw [topmost_of_notMem hroot, topmostAddresses]
        have hself : decide (e.TopmostAt handled []) = false :=
          decide_eq_false (mt topmostAt_nil.mp hroot)
        cases e with
        | negation place operand =>
            have hoperand : (negation place operand).partAt? ∘ (0 :: ·) = operand.partAt? := rfl
            rw [addresses, List.filter_cons_of_neg (by simp [hself]), filter_map_cons hroot rfl,
              List.map_map, hoperand, ih operand (by simp [children])]
            simp [children]
        | binary place op left right =>
            have hleft : (binary place op left right).partAt? ∘ (0 :: ·) = left.partAt? := rfl
            have hright : (binary place op left right).partAt? ∘ (1 :: ·) = right.partAt? := rfl
            rw [addresses, List.filter_cons_of_neg (by simp [hself]), List.filter_append,
              filter_map_cons hroot rfl, filter_map_cons hroot rfl, List.map_append,
              List.map_map, List.map_map, hleft, hright, ih left (by simp [children]),
              ih right (by simp [children])]
            simp [children]
        | _ => simp [addresses, children, hself]

end Topmost

end Expr

namespace Visitor

section Recorder

variable {handled : List String}

theorem method_recorder_of_mem {c : NodeClass} (h : c.name ∈ handled) :
    method (recorder handled) c = record := by
  have hown : recorder handled (methodPrefix ++ c.name) = some record :=
    if_pos (List.mem_map_of_mem h)
  simp only [method, hown, Option.some_or, Option.getD_some]

/-- A name that the recorder does not handle is either inherited or unknown to all visitors, which
comes to the same. -/
theorem method_recorder_of_notMem {c : NodeClass} (h : c.name ∉ handled) :
    method (recorder handled) c = generic := by
  have hown : recorder handled (methodPrefix ++ c.name) = none := by
    apply if_neg
    rintro hname
    obtain ⟨name, hname, heq⟩ := List.mem_map.mp hname
    exact h (String.append_right_inj _ |>.mp heq ▸ hname)
  simp only [method, hown, Option.none_or, inherited]
  split <;> rfl

theorem visit_eq {m : Type → Type} [Monad m] (own : String → Option (Method m)) (e : Expr) :
    visit own e = method own e.nodeClass e (e.children.map (visit own)) := by
  cases e <;> rfl

theorem run_record (e : Expr) (below : List (Recording Unit)) (seen : List Expr) :
    (record e below).run.run seen = (.ok (), seen ++ [e]) := rfl

/-- Visits that each add to the record, one after the other. -/
theorem run_generic {own : String → Option (Method Recording)} {found : Expr → List Expr}
    {below : List Expr}
    (h : ∀ child ∈ below, ∀ seen,
      (visit own child).run.run seen = (.ok (), seen ++ found child))
    (e : Expr) (seen : List Expr) :
    (generic e (below.map (visit own))).run.run seen = (.ok (), seen ++ below.flatMap found) := by
  induction below generalizing seen with
  | nil => simp [generic]; rfl
  | cons child below ih =>
      obtain ⟨hchild, hbelow⟩ := List.forall_mem_cons.mp h
      rw [List.flatMap_cons, ← List.append_assoc]
      simp only [generic, List.map_cons, List.forM_cons, id, ExceptT.run_bind, StateT.run_bind,
        hchild seen]
      exact ih hbelow (seen ++ found child)

theorem run_visit_recorder (handled : List String) (e : Expr) (seen : List Expr) :
    (visit (recorder handled) e).run.run seen =
      (.ok (), seen ++ e.topmost fun c ↦ handled.contains c.name) := by
  induction e using Expr.children_induction generalizing seen with
  | node e ih =>
      rw [visit_eq]
      by_cases hroot : e.nodeClass.name ∈ handled
      · rw [method_recorder_of_mem hroot, run_record, Expr.topmost_of_mem hroot]
      · rw [method_recorder_of_notMem hroot, Expr.topmost_of_notMem hroot]
        exact run_generic ih e seen

example (p : Location) :
    (visit (recorder ["Literal", "NoneType"])
      (.negation p (.binary p none .missing (.literal p (some 1))))).run.run [] =
      (.ok (), [.missing, .literal p (some 1)]) := rfl

/-- The recorded nodes are those at the topmost addresses, which come in pre-order: each once, and
nothing fails. -/
theorem recorder_meets_topmost (handled : List String) (e : Expr) :
    ∃ places : List (List Nat),
      places.Pairwise (· < ·) ∧
      (∀ address, address ∈ places ↔ e.TopmostAt handled address) ∧
      ∃ found : List Expr, found.map some = places.map e.partAt? ∧
        ∀ seen, (visit (recorder handled) e).run.run seen = (.ok (), seen ++ found) := by
  refine ⟨e.topmostAddresses handled, e.pairwise_topmostAddresses handled,
    fun _ ↦ Expr.mem_topmostAddresses, e.topmost fun c ↦ handled.contains c.name,
    (e.map_partAt?_topmostAddresses handled).symm, ?_⟩
  intro seen
  exact run_visit_recorder handled e seen

end Recorder

end Visitor

end ArithAsm
