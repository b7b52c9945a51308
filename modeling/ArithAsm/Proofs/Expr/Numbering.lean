import ArithAsm.Expr.Address
import ArithAsm.Proofs.Expr.Drawing
import Mathlib.Data.List.Nodup

/-!
# Numbering

The entries of a diagram are told by the edges of its tree.  Each of them leads from the number of a
node to that of one of its children and stands right before the child.  As the children are numbered
in the order in which they come, every node but the root is the end of just one edge.
-/

namespace ArithAsm

open Text

namespace Diagram

/-- What a line of a diagram says, but for the first and the last one. -/
inductive Entry where
  | node (number : Nat) (label : String)
  | edge (parent child : Nat)
deriving DecidableEq

namespace Entry

def text : Entry → String
  | node number label => s!"  {number} [label=\"{label}\"];"
  | edge parent child => s!"  {parent} -> {child};"

def isNode : Entry → Bool
  | node .. => true
  | edge .. => false

@[simp] theorem isNode_node (number : Nat) (label : String) :
    (node number label).isNode = true := rfl

@[simp] theorem isNode_edge (parent child : Nat) : (edge parent child).isNode = false := rfl

theorem toList_text_node (number : Nat) (label : String) :
    (node number label).text.toList = "  ".toList ++
      (number.repr.toList ++ ' ' :: ("[label=\"".toList ++ (label.toList ++ "\"];".toList))) := by
  have hopen : " [label=\"".toList = ' ' :: "[label=\"".toList := by decide
  change ((((("  " ++ number.repr) ++ " [label=\"") ++ label) ++ "\"];")).toList = _
  simp only [String.toList_append, List.append_assoc, hopen, List.cons_append]

theorem toList_text_edge (parent child : Nat) :
    (edge parent child).text.toList = "  ".toList ++
      (parent.repr.toList ++ ' ' :: ("-> ".toList ++ (child.repr.toList ++ [';']))) := by
  have harrow : " -> ".toList = ' ' :: "-> ".toList := by decide
  have hend : ";".toList = [';'] := by decide
  change ((((("  " ++ parent.repr) ++ " -> ") ++ child.repr) ++ ";")).toList = _
  simp only [String.toList_append, List.append_assoc, harrow, hend, List.cons_append]

theorem head?_text (entry : Entry) : entry.text.toList.head? = some ' ' := by
  have hindent : "  ".toList.head? = some ' ' := by decide
  cases entry with
  | node number label => rw [toList_text_node, List.head?_append, hindent, Option.some_or]
  | edge parent child => rw [toList_text_edge, List.head?_append, hindent, Option.some_or]

theorem text_ne {entry : Entry} {text : String} (h : text.toList.head? ≠ some ' ') :
    entry.text ≠ text :=
  fun htext ↦ h (htext ▸ entry.head?_text)

theorem text_injective : Function.Injective text := by
  have hblank : ' '.isDigit = false := by decide
  have hend : ';'.isDigit = false := by decide
  intro first second h
  replace h := congrArg String.toList h
  -- Both start with a number and a blank, and then only nodes go on with a bracket.
  cases first with
  | node number label =>
      cases second with
      | node number' label' =>
          rw [toList_text_node, toList_text_node] at h
          obtain ⟨rfl, hrest⟩ := repr_append_inj hblank hblank (List.append_cancel_left h)
          have hlabel := List.append_cancel_right (List.append_cancel_left (List.cons.inj hrest).2)
          rw [String.toList_inj.mp hlabel]
      | edge parent child =>
          rw [toList_text_node, toList_text_edge] at h
          obtain ⟨-, hrest⟩ := repr_append_inj hblank hblank (List.append_cancel_left h)
          simp at hrest
  | edge parent child =>
      cases second with
      | node number label =>
          rw [toList_text_edge, toList_text_node] at h
          obtain ⟨-, hrest⟩ := repr_append_inj hblank hblank (List.append_cancel_left h)
          simp at hrest
      | edge parent' child' =>
          rw [toList_text_edge, toList_text_edge] at h
          obtain ⟨rfl, hrest⟩ := repr_append_inj hblank hblank (List.append_cancel_left h)
          obtain ⟨rfl, -⟩ := repr_append_inj hend hend
            (List.append_cancel_left (List.cons.inj hrest).2)
          rfl

end Entry

/-- An edge of a tree whose nodes have numbers, with the child that it leads to. -/
structure Edge where
  parent : Nat
  number : Nat
  child : Expr

namespace Edge

def arrow (edge : Edge) : Entry :=
  .edge edge.parent edge.number

def declaration (edge : Edge) : Entry :=
  .node edge.number (edge.child.label?.getD "")

def entries (edge : Edge) : List Entry :=
  [edge.arrow, edge.declaration]

theorem filter_isNode_entries (edges : List Edge) :
    (edges.flatMap entries).filter Entry.isNode = edges.map declaration := by
  induction edges with
  | nil => rfl
  | cons edge rest ih => simp [entries, arrow, declaration, List.filter_cons, ih]

theorem filter_not_isNode_entries (edges : List Edge) :
    (edges.flatMap entries).filter (!·.isNode) = edges.map arrow := by
  induction edges with
  | nil => rfl
  | cons edge rest ih => simp [entries, arrow, declaration, ih]

end Edge

end Diagram

open Diagram

namespace Expr

/-- The edges of a tree in the order of their children, with numbers from a given one on. -/
def edges (number : Nat) : Expr → List Edge
  | negation _ operand => ⟨number, number + 1, operand⟩ :: operand.edges (number + 1)
  | binary _ _ left right =>
      let behind := number + 1 + left.nodes.length
      ⟨number, number + 1, left⟩ ::
        (left.edges (number + 1) ++ ⟨number, behind, right⟩ :: right.edges behind)
  | _ => []

/-- What a diagram says of a tree. -/
def entries (number : Nat) (e : Expr) : List Entry :=
  .node number (e.label?.getD "") :: (e.edges number).flatMap Edge.entries

theorem diagramLines_eq (number : Nat) (e : Expr) :
    e.diagramLines number = (e.entries number).map Entry.text := by
  induction e generalizing number with
  | negation place operand ih =>
      rw [diagramLines, ih]
      rfl
  | binary place op left right ihl ihr =>
      rw [diagramLines, ihl, ihr]
      simp only [entries, edges, Edge.entries, Edge.arrow, Edge.declaration, List.flatMap_cons,
        List.flatMap_append, List.map_cons, List.map_append, List.cons_append, List.nil_append]
      rfl
  | _ => rfl

/-- The children are all nodes but the root, numbered on in pre-order. -/
theorem zipIdx_nodes (number : Nat) (e : Expr) :
    e.nodes.zipIdx number =
      (e, number) :: (e.edges number).map fun edge ↦ (edge.child, edge.number) := by
  induction e generalizing number with
  | negation place operand ih => rw [nodes, List.zipIdx_cons, ih, edges, List.map_cons]
  | binary place op left right ihl ihr =>
      rw [nodes, List.zipIdx_cons, List.zipIdx_append, ihl, ihr, edges, List.map_cons,
        List.map_append, List.map_cons, List.cons_append]
  | _ => rfl

theorem parent_lt_of_mem_edges {number : Nat} {e : Expr} :
    ∀ edge ∈ e.edges number, number ≤ edge.parent ∧ edge.parent < edge.number := by
  induction e generalizing number with
  | negation place operand ih =>
      refine List.forall_mem_cons.mpr ⟨⟨Nat.le_refl number, Nat.lt_succ_self number⟩, ?_⟩
      intro edge hedge
      have hoperand := ih edge hedge
      omega
  | binary place op left right ihl ihr =>
      refine List.forall_mem_cons.mpr ⟨⟨Nat.le_refl number, Nat.lt_succ_self number⟩, ?_⟩
      refine List.forall_mem_append.mpr ⟨?_, List.forall_mem_cons.mpr ⟨?_, ?_⟩⟩
      · intro edge hedge
        have hleft := ihl edge hedge
        omega
      · dsimp only
        omega
      · intro edge hedge
        have hright := ihr edge hedge
        omega
  | _ => exact fun _ hedge ↦ absurd hedge List.not_mem_nil

/-! ## Edges by addresses -/

/-- Addresses seen from one step further up. -/
def extended (d : Nat) (numbers : List (List Nat × Nat)) : List (List Nat × Nat) :=
  numbers.map fun (address, n) ↦ (d :: address, n)

@[simp] theorem cons_mem_extended {d k n : Nat} {address : List Nat}
    {numbers : List (List Nat × Nat)} :
    (k :: address, n) ∈ extended d numbers ↔ k = d ∧ (address, n) ∈ numbers := by
  simp only [extended, List.mem_map, Prod.exists, Prod.mk.injEq, List.cons.injEq]
  constructor
  · rintro ⟨_, _, hmem, ⟨rfl, rfl⟩, rfl⟩
    exact ⟨rfl, hmem⟩
  · rintro ⟨rfl, hmem⟩
    exact ⟨_, _, hmem, ⟨rfl, rfl⟩, rfl⟩

@[simp] theorem nil_notMem_extended {d n : Nat} {numbers : List (List Nat × Nat)} :
    ([], n) ∉ extended d numbers := by
  simp [extended]

/-- The addresses with the numbers of their nodes, from a given one on. -/
def numbered (number : Nat) (e : Expr) : List (List Nat × Nat) :=
  e.addresses.zipIdx number

theorem numbered_negation (number : Nat) (place : Location) (operand : Expr) :
    (negation place operand).numbered number =
      ([], number) :: (extended 0 (operand.numbered (number + 1)) ++ extended 1 []) := by
  rw [numbered, addresses, List.zipIdx_cons, List.zipIdx_map]
  exact congrArg _ (List.append_nil _).symm

theorem numbered_binary (number : Nat) (place : Location) (op : Option Op) (left right : Expr) :
    (binary place op left right).numbered number =
      ([], number) :: (extended 0 (left.numbered (number + 1)) ++
        extended 1 (right.numbered (number + 1 + left.nodes.length))) := by
  rw [numbered, addresses, List.zipIdx_cons, List.zipIdx_append, List.zipIdx_map, List.zipIdx_map,
    List.length_map, length_addresses]
  rfl

theorem nil_mem_numbered_iff {number n : Nat} {e : Expr} :
    ([], n) ∈ e.numbered number ↔ n = number := by
  cases e with
  | negation place operand => simp [numbered_negation]
  | binary place op left right => simp [numbered_binary]
  | _ => simp [numbered, addresses]

/-- Among numbered addresses, that of `j` goes one step further than that of `i`. -/
def ParentIn (numbers : List (List Nat × Nat)) (i j : Nat) : Prop :=
  ∃ address k, (address, i) ∈ numbers ∧ (address ++ [k], j) ∈ numbers

theorem parentIn_cons_iff {number i j : Nat} {first second : List (List Nat × Nat)} :
    ParentIn (([], number) :: (extended 0 first ++ extended 1 second)) i j ↔
      (i = number ∧ (([], j) ∈ first ∨ ([], j) ∈ second)) ∨
        ParentIn first i j ∨ ParentIn second i j := by
  constructor
  · rintro ⟨address, k, hi, hj⟩
    cases address with
    | nil =>
        have hroot : i = number := by simpa using hi
        have hchild : (k = 0 ∧ ([], j) ∈ first) ∨ (k = 1 ∧ ([], j) ∈ second) := by simpa using hj
        exact .inl ⟨hroot, hchild.imp And.right And.right⟩
    | cons d address =>
        replace hi : (d = 0 ∧ (address, i) ∈ first) ∨ (d = 1 ∧ (address, i) ∈ second) := by
          simpa using hi
        replace hj : (d = 0 ∧ (address ++ [k], j) ∈ first) ∨
            (d = 1 ∧ (address ++ [k], j) ∈ second) := by
          simpa using hj
        rcases hi with ⟨rfl, hi⟩ | ⟨rfl, hi⟩
        · exact .inr (.inl ⟨address, k, hi, by simpa using hj⟩)
        · exact .inr (.inr ⟨address, k, hi, by simpa using hj⟩)
  · rintro (⟨rfl, hj | hj⟩ | ⟨address, k, hi, hj⟩ | ⟨address, k, hi, hj⟩)
    · exact ⟨[], 0, by simp, by simpa using hj⟩
    · exact ⟨[], 1, by simp, by simpa using hj⟩
    · exact ⟨0 :: address, k, by simpa using hi, by simpa using hj⟩
    · exact ⟨1 :: address, k, by simpa using hi, by simpa using hj⟩

theorem mem_edges_iff {number i j : Nat} {e : Expr} :
    (∃ child, ⟨i, j, child⟩ ∈ e.edges number) ↔ ParentIn (e.numbered number) i j := by
  induction e generalizing number with
  | negation place operand ih =>
      rw [numbered_negation, parentIn_cons_iff, nil_mem_numbered_iff, ← ih]
      simp [edges, exists_or, ParentIn]
  | binary place op left right ihl ihr =>
      rw [numbered_binary, parentIn_cons_iff, nil_mem_numbered_iff, nil_mem_numbered_iff, ← ihl,
        ← ihr]
      simp only [edges, List.mem_cons, List.mem_append, exists_or, Edge.mk.injEq, exists_and_left,
        exists_eq, and_true]
      grind
  | _ => simp [edges, numbered, addresses, ParentIn]

theorem hasChildAt_iff {e : Expr} {i j : Nat} :
    e.HasChildAt i j ↔ ∃ child, ⟨i, j, child⟩ ∈ e.edges 0 := by
  rw [mem_edges_iff, ParentIn, HasChildAt, numbered]
  simp only [List.mem_zipIdx_iff_getElem?]

/-! ## Entries of a whole diagram -/

variable {e other : Expr} {i j : Nat}

theorem numbers_edges (e : Expr) :
    List.range' 0 e.nodes.length = 0 :: (e.edges 0).map Edge.number := by
  have hnumbers := congrArg (List.map Prod.snd) (e.zipIdx_nodes 0)
  rwa [List.zipIdx_map_snd, List.map_cons, List.map_map] at hnumbers

theorem length_edges (e : Expr) : (e.edges 0).length + 1 = e.nodes.length := by
  simpa using (congrArg List.length e.numbers_edges).symm

theorem filter_isNode_entries (e : Expr) :
    (e.entries 0).filter Entry.isNode = e.names.zipIdx.map fun (label, i) ↦ .node i label := by
  rw [entries, List.filter_cons_of_pos rfl, Edge.filter_isNode_entries, names, List.zipIdx_map,
    zipIdx_nodes]
  simp [Edge.declaration, Function.comp_def]

theorem filter_not_isNode_entries (e : Expr) :
    (e.entries 0).filter (!·.isNode) = (e.edges 0).map Edge.arrow := by
  rw [entries, List.filter_cons_of_neg (by simp), Edge.filter_not_isNode_entries]

theorem edge_mem_entries_iff : .edge i j ∈ e.entries 0 ↔ ∃ child, ⟨i, j, child⟩ ∈ e.edges 0 := by
  have hnode : Entry.edge i j ∈ e.entries 0 ↔
      Entry.edge i j ∈ (e.entries 0).filter (!·.isNode) := by
    simp
  rw [hnode, filter_not_isNode_entries, List.mem_map]
  constructor
  · rintro ⟨⟨parent, number, child⟩, hmem, harrow⟩
    cases harrow
    exact ⟨child, hmem⟩
  · rintro ⟨child, hmem⟩
    exact ⟨_, hmem, rfl⟩

/-- An edge and the child after it. -/
theorem isInfix_entries {edge : Edge} (h : edge ∈ e.edges 0) : edge.entries <:+: e.entries 0 := by
  obtain ⟨before, after, hedges⟩ := List.append_of_mem h
  refine ⟨.node 0 (e.label?.getD "") :: before.flatMap Edge.entries, after.flatMap Edge.entries, ?_⟩
  simp [entries, hedges]

theorem existsUnique_edge (hpos : 0 < j) (hj : j < e.nodes.length) :
    ∃! i, .edge i j ∈ e.entries 0 := by
  have hnumbers := e.numbers_edges
  have hmem : j ∈ (e.edges 0).map Edge.number := by
    have hrange : j ∈ List.range' 0 e.nodes.length := by simpa [List.mem_range'] using hj
    rw [hnumbers, List.mem_cons] at hrange
    exact hrange.resolve_left (Nat.pos_iff_ne_zero.mp hpos)
  have hnodup : ((e.edges 0).map Edge.number).Nodup :=
    (List.nodup_cons.mp (hnumbers ▸ List.nodup_range')).2
  obtain ⟨⟨i, _, child⟩, hedge, rfl⟩ := List.mem_map.mp hmem
  refine ⟨i, edge_mem_entries_iff.mpr ⟨child, hedge⟩, fun i' hi' ↦ ?_⟩
  obtain ⟨child', hedge'⟩ := edge_mem_entries_iff.mp hi'
  -- Numbers tell the edges apart, so one child has one parent.
  have hsame := List.inj_on_of_nodup_map hnodup hedge' hedge rfl
  exact congrArg Edge.parent hsame

theorem lt_of_edge_mem_entries (h : .edge i j ∈ e.entries 0) : i < j ∧ j < e.nodes.length := by
  obtain ⟨child, hedge⟩ := edge_mem_entries_iff.mp h
  have hnumber : j ∈ List.range' 0 e.nodes.length := by
    rw [numbers_edges]
    exact List.mem_cons_of_mem 0 (List.mem_map_of_mem hedge)
  exact ⟨(parent_lt_of_mem_edges _ hedge).2, by simpa [List.mem_range'] using hnumber⟩

theorem getElem?_names_of_mem_edges {edge : Edge} (h : edge ∈ e.edges 0) :
    e.names[edge.number]? = some (edge.child.label?.getD "") := by
  have hnode : (edge.child, edge.number) ∈ e.nodes.zipIdx 0 := by
    rw [zipIdx_nodes]
    exact List.mem_cons_of_mem _ (List.mem_map_of_mem h)
  rw [names, List.getElem?_map, List.mem_zipIdx_iff_getElem?.mp hnode, Option.map_some]

theorem names_eq_of_entries_eq (h : e.entries 0 = other.entries 0) : e.names = other.names := by
  have hnodes : e.names.zipIdx.map (fun (label, i) ↦ Entry.node i label) =
      other.names.zipIdx.map fun (label, i) ↦ Entry.node i label := by
    rw [← filter_isNode_entries, ← filter_isNode_entries, h]
  have hindexed : e.names.zipIdx = other.names.zipIdx := by
    refine List.map_injective_iff.mpr ?_ hnodes
    rintro ⟨label, i⟩ ⟨label', i'⟩ ⟨⟩
    rfl
  rw [← List.zipIdx_map_fst 0 e.names, hindexed, List.zipIdx_map_fst]

end Expr

namespace Diagram

variable {e other : Expr}

theorem graphLines_eq (e : Expr) :
    graphLines e = "digraph G \x7b" :: ((e.entries 0).map Entry.text ++ ["\x7d"]) := by
  rw [graphLines, Expr.diagramLines_eq]

theorem lines_graph (e : Expr) : Text.lines ("\n".intercalate (graphLines e)) = graphLines e := by
  refine lines_intercalate_newline fun line hline ↦
    ⟨(isPlain_of_mem_graphLines line hline).isSingle, ?_⟩
  rw [graphLines_eq, List.mem_cons, List.mem_append, List.mem_map, List.mem_singleton] at hline
  rcases hline with rfl | ⟨entry, -, rfl⟩ | rfl
  · decide
  · exact Entry.text_ne (by decide)
  · decide

theorem text_mem_graphLines_iff {entry : Entry} :
    entry.text ∈ graphLines e ↔ entry ∈ e.entries 0 := by
  have hfirst : entry.text ≠ "digraph G \x7b" := Entry.text_ne (by decide)
  have hlast : entry.text ≠ "\x7d" := Entry.text_ne (by decide)
  rw [graphLines_eq, List.mem_cons, List.mem_append, List.mem_singleton,
    List.mem_map_of_injective Entry.text_injective]
  simp [hfirst, hlast]

theorem entries_of_diagram_eq {text : String} (h : e.diagram = .ok text)
    (h' : other.diagram = .ok text) : e.entries 0 = other.entries 0 := by
  rw [diagram_eq (labelled_of_diagram h)] at h
  rw [diagram_eq (labelled_of_diagram h'), ← h] at h'
  have hlines : graphLines e = graphLines other := by
    rw [← lines_graph e, ← lines_graph other, Except.ok.inj h']
  rw [graphLines_eq, graphLines_eq] at hlines
  have hentries := List.append_cancel_right (List.cons.inj hlines).2
  exact List.map_injective_iff.mpr Entry.text_injective hentries

/-- A diagram declares the nodes in pre-order under their numbers.  Its edges are those of the tree,
each right before the declaration of its child, so that every node but the root has one edge to it
and this comes from a smaller number.  Where a number is too long there is no diagram.  Trees with
the same diagram differ in places only. -/
theorem print_numbered (he : e.Operated) :
    (e.Short → ∃ (text : String) (lines labels : List String) (entries : List Entry),
      (∀ d : Diagram, ((print e).run.run d).1 = .ok text) ∧
      e.diagram = .ok text ∧ text = "\n".intercalate lines ∧ Text.lines text = lines ∧
      lines = "digraph G \x7b" :: (entries.map Entry.text ++ ["\x7d"]) ∧
      (∀ entry : Entry, entry.text ∈ lines ↔ entry ∈ entries) ∧
      e.nodes.map Expr.label? = labels.map some ∧
      entries.filter Entry.isNode = labels.zipIdx.map (fun (label, i) ↦ .node i label) ∧
      (entries.filter (!·.isNode)).length + 1 = e.nodes.length ∧
      (∀ i j, Entry.edge i j ∈ entries ↔ e.HasChildAt i j) ∧
      (∀ i j, Entry.edge i j ∈ entries → ∃ label, labels[j]? = some label ∧
        [.edge i j, .node j label] <:+: entries) ∧
      (∀ i j, Entry.edge i j ∈ entries → i < j ∧ j < e.nodes.length) ∧
      ∀ j, 0 < j → j < e.nodes.length → ∃! i, Entry.edge i j ∈ entries) ∧
    (¬ e.Short → e.diagram = .error .tooLong ∧
      ∀ d : Diagram, ((print e).run.run d).1 = .error .tooLong) ∧
    ∀ (other : Expr) (text : String), other.Operated →
      e.diagram = .ok text → other.diagram = .ok text → e.Alike other := by
  refine ⟨fun hshort ↦ ?_, fun hlong ↦ ?_, fun other text _ h h' ↦ ?_⟩
  · have hlabelled := he.labelled_iff.mpr hshort
    refine ⟨_, graphLines e, e.names, e.entries 0, run_print hlabelled, diagram_eq hlabelled, rfl,
      lines_graph e, graphLines_eq e, fun entry ↦ text_mem_graphLines_iff, hlabelled.map_label?,
      e.filter_isNode_entries, ?_, fun i j ↦ ?_, fun i j h ↦ ?_,
      fun i j ↦ Expr.lt_of_edge_mem_entries, fun j ↦ Expr.existsUnique_edge⟩
    · rw [Expr.filter_not_isNode_entries, List.length_map, Expr.length_edges]
    · rw [Expr.edge_mem_entries_iff, Expr.hasChildAt_iff]
    · obtain ⟨child, hedge⟩ := Expr.edge_mem_entries_iff.mp h
      exact ⟨_, Expr.getElem?_names_of_mem_edges hedge, Expr.isInfix_entries hedge⟩
  · have hfault := he.findSome?_labelFault? hlong
    exact ⟨run_print_eq_error hfault {}, run_print_eq_error hfault⟩
  · exact Expr.alike_of_names (labelled_of_diagram h) (labelled_of_diagram h')
      (Expr.names_eq_of_entries_eq (entries_of_diagram_eq h h'))

/-- The diagram of `(1-2)/3`, whose root is drawn with number `0` and its second child with number
`4`, and that of the same tree without places. -/
theorem print_numbered_quotient :
    let place : Location := { line := 1, column := 6 }
    let quotient (place : Location) : Expr :=
      .binary place (some .div) (.binary place (some .sub) (.literal place (some 1))
        (.literal place (some 2))) (.literal place (some 3))
    (quotient place).Operated ∧ (quotient default).Operated ∧
      (quotient place).diagram = (quotient default).diagram ∧
      (quotient place).HasChildAt 0 4 ∧
      (∃ lines : List String, (quotient place).diagram = .ok ("\n".intercalate lines) ∧
        "  0 -> 4;" ∈ lines) ∧
      (quotient place).Alike (quotient default) := by
  intro place quotient
  have hoperated : ∀ place, (quotient place).Operated := fun place ↦
    ⟨rfl, ⟨rfl, trivial, trivial⟩, trivial⟩
  have hshort : (quotient place).Short := by decide
  have hsame : (quotient place).diagram = (quotient default).diagram := rfl
  have hchild : (quotient place).HasChildAt 0 4 := ⟨[], 1, rfl, rfl⟩
  obtain ⟨hpicture, -, hdetermined⟩ := print_numbered (hoperated place)
  obtain ⟨text, lines, labels, entries, -, hdiagram, rfl, -, -, hmem, -, -, -, hedges, -⟩ :=
    hpicture hshort
  have hline : (Entry.edge 0 4).text ∈ lines := (hmem _).mpr ((hedges 0 4).mpr hchild)
  exact ⟨hoperated place, hoperated default, hsame, hchild, ⟨lines, hdiagram, hline⟩,
    hdetermined _ _ (hoperated default) hdiagram (hsame ▸ hdiagram)⟩

/-- There is no diagram of the first number that is too long. -/
theorem diagram_of_long_literal :
    let e : Expr := .literal default (some leastLong)
    e.Operated ∧ ∀ text, e.diagram ≠ .ok text := by
  refine ⟨trivial, fun text h ↦ not_isShort_leastLong ?_⟩
  exact (labelled_of_diagram h).short _ rfl

end Diagram

end ArithAsm
