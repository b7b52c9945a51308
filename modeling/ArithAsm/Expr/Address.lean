import ArithAsm.Expr.Basic

/-!
# Addresses of nodes

A node is told by the way to it from the root: which child to go to, step by step.  Equal
sub-trees at several places of a tree have different addresses.
-/

namespace ArithAsm.Expr

/-- The addresses of all nodes in pre-order. -/
def addresses : Expr → List (List Nat)
  | negation _ operand => [] :: operand.addresses.map (0 :: ·)
  | binary _ _ left right =>
      [] :: (left.addresses.map (0 :: ·) ++ right.addresses.map (1 :: ·))
  | _ => [[]]

/-- The sub-tree at an address. -/
def partAt? : Expr → List Nat → Option Expr
  | e, [] => some e
  | e, k :: address => e.children[k]?.bind fun child => child.partAt? address

/-- Counted in pre-order, node `j` is a child of node `i`. -/
def HasChildAt (e : Expr) (i j : Nat) : Prop :=
  ∃ address k, e.addresses[i]? = some address ∧ e.addresses[j]? = some (address ++ [k])

/-- The addresses list the nodes in pre-order. -/
theorem map_partAt?_addresses (e : Expr) : e.addresses.map e.partAt? = e.nodes.map some := by
  induction e with
  | negation place operand ih =>
      have hoperand : (negation place operand).partAt? ∘ (0 :: ·) = operand.partAt? := rfl
      rw [addresses, nodes, List.map_cons, List.map_cons, List.map_map, hoperand, ih]
      rfl
  | binary place op left right ihl ihr =>
      have hleft : (binary place op left right).partAt? ∘ (0 :: ·) = left.partAt? := rfl
      have hright : (binary place op left right).partAt? ∘ (1 :: ·) = right.partAt? := rfl
      rw [addresses, nodes, List.map_cons, List.map_cons, List.map_append, List.map_append,
        List.map_map, List.map_map, hleft, hright, ihl, ihr]
      rfl
  | _ => rfl

@[simp] theorem length_addresses (e : Expr) : e.addresses.length = e.nodes.length := by
  simpa using congrArg List.length e.map_partAt?_addresses

theorem exists_address {e part : Expr} {k : Nat} (h : e.nodes[k]? = some part) :
    ∃ address, e.addresses[k]? = some address ∧ e.partAt? address = some part := by
  have hk : (e.addresses.map e.partAt?)[k]? = some (some part) := by
    rw [map_partAt?_addresses, List.getElem?_map, h, Option.map_some]
  rw [List.getElem?_map] at hk
  exact Option.map_eq_some_iff.mp hk

/-- Addresses come in lexicographic order: a node before the nodes below it, and a left operand
before the right one. -/
theorem pairwise_addresses (e : Expr) : e.addresses.Pairwise (· < ·) := by
  induction e with
  | negation place operand ih =>
      rw [addresses, List.pairwise_cons]
      constructor
      · intro address haddress
        obtain ⟨below, -, rfl⟩ := List.mem_map.mp haddress
        exact List.nil_lt_cons _ _
      · exact ih.map (0 :: ·) fun _ _ h ↦ List.cons_lt_cons_self.mpr h
  | binary place op left right ihl ihr =>
      rw [addresses, List.pairwise_cons]
      constructor
      · intro address haddress
        rcases List.mem_append.mp haddress with hside | hside
        all_goals
          obtain ⟨below, -, rfl⟩ := List.mem_map.mp hside
          exact List.nil_lt_cons _ _
      · apply List.pairwise_append.mpr
        refine ⟨ihl.map (0 :: ·) fun _ _ h ↦ List.cons_lt_cons_self.mpr h,
          ihr.map (1 :: ·) fun _ _ h ↦ List.cons_lt_cons_self.mpr h, ?_⟩
        intro first hfirst second hsecond
        obtain ⟨below, -, rfl⟩ := List.mem_map.mp hfirst
        obtain ⟨beyond, -, rfl⟩ := List.mem_map.mp hsecond
        exact List.cons_lt_cons_iff.mpr (.inl Nat.zero_lt_one)
  | _ => exact List.pairwise_singleton _ _

theorem mem_addresses {e : Expr} {address : List Nat} :
    address ∈ e.addresses ↔ ∃ part, e.partAt? address = some part := by
  constructor
  · intro h
    have hpart : e.partAt? address ∈ e.nodes.map some :=
      e.map_partAt?_addresses ▸ List.mem_map_of_mem h
    obtain ⟨part, -, hpart⟩ := List.mem_map.mp hpart
    exact ⟨part, hpart.symm⟩
  · rintro ⟨part, hpart⟩
    induction e generalizing address with
    | negation place operand ih =>
        match address with
        | [] => exact List.mem_cons_self
        | 0 :: below => exact List.mem_cons_of_mem _ (List.mem_map_of_mem (ih hpart))
    | binary place op left right ihl ihr =>
        match address with
        | [] => exact List.mem_cons_self
        | 0 :: below =>
            apply List.mem_cons_of_mem
            exact List.mem_append_left _ (List.mem_map_of_mem (ihl hpart))
        | 1 :: below =>
            apply List.mem_cons_of_mem
            exact List.mem_append_right _ (List.mem_map_of_mem (ihr hpart))
    | _ =>
        match address with
        | [] => exact List.mem_cons_self

end ArithAsm.Expr
