import ArithAsm.Expr.Places
import ArithAsm.Proofs.Text.Numeral

/-!
# Labels

A label tells all about the root of a tree but its place and its children, and so also how many
children there are.  Read in pre-order, the labels of the nodes are the tree in prefix notation.
-/

namespace ArithAsm

theorem Op.name_injective : Function.Injective Op.name := by
  intro op other h
  cases op <;> cases other <;> simp_all [name]

namespace Expr

variable {e : Expr}

/-- The character that the label starts with, if there is one. -/
def initial : Expr → Char
  | literal .. => 'L'
  | negation .. => 'U'
  | binary .. => 'B'
  | blank _ => 'E'
  | missing => 'N'

theorem head?_toList_append {first : String} {c : Char} (h : first.toList.head? = some c)
    (second : String) : (first ++ second).toList.head? = some c := by
  rw [String.toList_append, List.head?_append, h, Option.some_or]

theorem head?_label {label : String} (h : e.label? = some label) :
    label.toList.head? = some e.initial := by
  cases e with
  | literal place value =>
      have hclass : "Literal(".toList.head? = some 'L' := by decide
      cases value with
      | none =>
          cases h
          exact head?_toList_append (head?_toList_append hclass absentText) ")"
      | some n =>
          obtain ⟨c, -, rfl⟩ := Option.map_eq_some_iff.mp h
          exact head?_toList_append (head?_toList_append hclass c.text) ")"
  | binary place op left right =>
      have hclass : "BinaryOp(".toList.head? = some 'B' := by decide
      obtain ⟨op, -, rfl⟩ := Option.map_eq_some_iff.mp h
      exact head?_toList_append (head?_toList_append hclass op.name) ")"
  | _ =>
      cases h
      simp [nodeClass, NodeClass.name, initial]

/-- A label does not start with a blank. -/
theorem head?_label_ne_blank (e : Expr) : (e.label?.getD "").toList.head? ≠ some ' ' := by
  cases hlabel : e.label? with
  | none => simp
  | some label =>
      rw [Option.getD_some, head?_label hlabel]
      cases e <;> simp [initial]

theorem label_ne_empty {label : String} (h : e.label? = some label) : label ≠ "" := by
  rintro rfl
  cases head?_label h

/-- The class of the nodes whose labels start with a character. -/
def classOfInitial : Char → NodeClass
  | 'L' => .literal
  | 'U' => .negation
  | 'B' => .binary
  | 'E' => .blank
  | _ => .missing

theorem classOfInitial_initial (e : Expr) : classOfInitial e.initial = e.nodeClass := by
  cases e <;> rfl

theorem nodeClass_of_label? {other : Expr} {label : String} (h : e.label? = some label)
    (h' : other.label? = some label) : e.nodeClass = other.nodeClass := by
  have hinitial := (head?_label h).symm.trans (head?_label h')
  rw [← classOfInitial_initial, ← classOfInitial_initial, Option.some.inj hinitial]

/-- The text of a literal within its label is that of its number, or it says that there is none. -/
theorem exists_text_of_label? {place : Location} {value : Option Int} {label : String}
    (h : (literal place value).label? = some label) :
    ∃ text : String, label = s!"Literal({text})" ∧ integerOf? text.toList = value := by
  cases value with
  | none =>
      cases h
      exact ⟨absentText, rfl, by decide⟩
  | some n =>
      obtain ⟨c, hc, rfl⟩ := Option.map_eq_some_iff.mp h
      obtain rfl := Constant.of?_eq_some_iff.mp hc
      exact ⟨c.text, rfl, integerOf?_toString c.value⟩

theorem value_of_label? {place place' : Location} {value value' : Option Int} {label : String}
    (h : (literal place value).label? = some label)
    (h' : (literal place' value').label? = some label) : value = value' := by
  obtain ⟨text, rfl, hvalue⟩ := exists_text_of_label? h
  obtain ⟨text', hlabel, hvalue'⟩ := exists_text_of_label? h'
  obtain rfl : text = text' :=
    (String.append_right_inj _).mp ((String.append_left_inj _).mp hlabel)
  exact hvalue.symm.trans hvalue'

theorem op_of_label? {place place' : Location} {op op' : Option Op} {left left' right right' : Expr}
    (h : (binary place op left right).label? = (binary place' op' left' right').label?) :
    op = op' := by
  refine Option.map_injective (fun op other hname ↦ ?_) h
  exact Op.name_injective ((String.append_right_inj _).mp ((String.append_left_inj _).mp hname))

/-! ## Trees all of whose nodes have labels -/

/-- Every node has a label. -/
def Labelled (e : Expr) : Prop :=
  ∀ part ∈ e.nodes, ∃ label, part.label? = some label

/-- Why a node cannot be drawn, if it cannot. -/
def labelFault? (e : Expr) : Option TextFault :=
  match e.label? with
  | some _ => none
  | none => some e.textFault

theorem Labelled.label?_eq_some (he : e.Labelled) : e.label? = some (e.label?.getD "") := by
  have hself : e ∈ e.nodes := by cases e <;> exact .head _
  obtain ⟨label, hlabel⟩ := he e hself
  rw [hlabel, Option.getD_some]

theorem Labelled.operand {place : Location} {operand : Expr}
    (he : (negation place operand).Labelled) : operand.Labelled :=
  fun part hpart ↦ he part (.tail _ hpart)

theorem Labelled.left {place : Location} {op : Option Op} {left right : Expr}
    (he : (binary place op left right).Labelled) : left.Labelled :=
  fun part hpart ↦ he part (.tail _ (List.mem_append_left _ hpart))

theorem Labelled.right {place : Location} {op : Option Op} {left right : Expr}
    (he : (binary place op left right).Labelled) : right.Labelled :=
  fun part hpart ↦ he part (.tail _ (List.mem_append_right _ hpart))

theorem Operated.of_mem_nodes (he : e.Operated) : ∀ part ∈ e.nodes, part.Operated := by
  induction e with
  | negation place operand ih => exact List.forall_mem_cons.mpr ⟨he, ih he⟩
  | binary place op left right ihl ihr =>
      exact List.forall_mem_cons.mpr ⟨he, List.forall_mem_append.mpr ⟨ihl he.2.1, ihr he.2.2⟩⟩
  | _ => exact List.forall_mem_singleton.mpr he

theorem Short.of_mem_nodes (he : e.Short) : ∀ part ∈ e.nodes, part.Short := by
  induction e with
  | negation place operand ih => exact List.forall_mem_cons.mpr ⟨he, ih he⟩
  | binary place op left right ihl ihr =>
      exact List.forall_mem_cons.mpr ⟨he, List.forall_mem_append.mpr ⟨ihl he.1, ihr he.2⟩⟩
  | _ => exact List.forall_mem_singleton.mpr he

theorem short_of_label? {place : Location} {value : Option Int} {label : String}
    (h : (literal place value).label? = some label) : (literal place value).Short := by
  rintro n ⟨⟩
  obtain ⟨c, hc, -⟩ := Option.map_eq_some_iff.mp h
  exact Constant.of?_eq_some_iff.mp hc ▸ c.short

theorem Labelled.short (he : e.Labelled) : e.Short := by
  induction e with
  | literal place value => exact short_of_label? he.label?_eq_some
  | negation place operand ih => exact ih he.operand
  | binary place op left right ihl ihr => exact ⟨ihl he.left, ihr he.right⟩
  | blank place => trivial
  | missing => trivial

/-- Where every operation has its operator, labels are a matter of the numbers. -/
theorem Operated.labelled_iff (he : e.Operated) : e.Labelled ↔ e.Short :=
  ⟨Labelled.short, fun hshort part hpart ↦
    exists_label? (he.of_mem_nodes part hpart) (hshort.of_mem_nodes part hpart)⟩

theorem Complete.labelled (he : e.Complete) (hshort : e.Short) : e.Labelled :=
  he.operated.labelled_iff.mpr hshort

theorem findSome?_labelFault?_cons (e : Expr) (rest : List Expr) :
    (e :: rest).findSome? labelFault? = e.labelFault?.or (rest.findSome? labelFault?) := by
  rw [List.findSome?_cons]
  cases e.labelFault? <;> rfl

theorem findSome?_labelFault?_eq_none_iff :
    e.nodes.findSome? labelFault? = none ↔ e.Labelled := by
  rw [List.findSome?_eq_none_iff]
  refine forall₂_congr fun part _ ↦ ?_
  unfold labelFault?
  cases part.label? <;> simp

/-- The one thing that is missing where every operation has its operator. -/
theorem Operated.labelFault?_eq (he : e.Operated) {fault : TextFault}
    (h : e.labelFault? = some fault) : fault = .tooLong := by
  cases e with
  | literal place value =>
      unfold labelFault? at h
      split at h <;> cases h
      rfl
  | binary place op left right =>
      obtain ⟨op, rfl⟩ := Option.isSome_iff_exists.mp he.1
      cases h
  | _ => cases h

theorem Operated.findSome?_labelFault? (he : e.Operated) (hlong : ¬ e.Short) :
    e.nodes.findSome? labelFault? = some .tooLong := by
  cases hfault : e.nodes.findSome? labelFault? with
  | none => exact absurd (findSome?_labelFault?_eq_none_iff.mp hfault).short hlong
  | some fault =>
      obtain ⟨part, hpart, hnode⟩ := List.exists_of_findSome?_eq_some hfault
      rw [(he.of_mem_nodes part hpart).labelFault?_eq hnode]

/-- The labels of the nodes in pre-order, where each node has one. -/
def names (e : Expr) : List String :=
  e.nodes.map fun part ↦ part.label?.getD ""

theorem names_eq (e : Expr) : e.names = e.label?.getD "" :: e.children.flatMap names := by
  cases e <;> simp [names, nodes, children]

theorem Labelled.map_label? (he : e.Labelled) : e.nodes.map label? = e.names.map some := by
  rw [names, List.map_map]
  refine List.map_congr_left fun part hpart ↦ ?_
  obtain ⟨label, hlabel⟩ := he part hpart
  rw [Function.comp_apply, hlabel, Option.getD_some]

variable {other : Expr} {rest rest' : List String}

theorem root_of_names (he : e.Labelled) (hother : other.Labelled)
    (h : e.names ++ rest = other.names ++ rest') :
    ∃ label, e.label? = some label ∧ other.label? = some label ∧
      e.nodeClass = other.nodeClass ∧
      e.children.flatMap names ++ rest = other.children.flatMap names ++ rest' := by
  rw [names_eq e, names_eq other, List.cons_append, List.cons_append] at h
  obtain ⟨hlabel, hbelow⟩ := List.cons.inj h
  have hroot := he.label?_eq_some
  have hroot' := hother.label?_eq_some
  rw [← hlabel] at hroot'
  exact ⟨_, hroot, hroot', nodeClass_of_label? hroot hroot', hbelow⟩

/-- The labels of a tree, with anything behind them, start the labels of no other tree. -/
theorem alike_of_names_append (he : e.Labelled) (hother : other.Labelled)
    (h : e.names ++ rest = other.names ++ rest') : e.Alike other ∧ rest = rest' := by
  induction e generalizing other rest rest' with
  | literal place value =>
      obtain ⟨label, hlabel, hlabel', hclass, hbelow⟩ := root_of_names he hother h
      cases other with
      | literal place' value' =>
          obtain rfl := value_of_label? hlabel hlabel'
          exact ⟨.literal place place' value, hbelow⟩
      | _ => cases hclass
  | negation place operand ih =>
      obtain ⟨-, -, -, hclass, hbelow⟩ := root_of_names he hother h
      cases other with
      | negation place' operand' =>
          simp only [children, List.flatMap_cons, List.flatMap_nil, List.append_nil] at hbelow
          obtain ⟨hoperand, hrest⟩ := ih he.operand hother.operand hbelow
          exact ⟨hoperand.negation place place', hrest⟩
      | _ => cases hclass
  | binary place op left right ihl ihr =>
      obtain ⟨label, hlabel, hlabel', hclass, hbelow⟩ := root_of_names he hother h
      cases other with
      | binary place' op' left' right' =>
          obtain rfl := op_of_label? (hlabel.trans hlabel'.symm)
          simp only [children, List.flatMap_cons, List.flatMap_nil, List.append_nil,
            List.append_assoc] at hbelow
          -- Whatever follows the left operand, its labels stop at the same node.
          obtain ⟨hleft, hbehind⟩ := ihl he.left hother.left hbelow
          obtain ⟨hright, hrest⟩ := ihr he.right hother.right hbehind
          exact ⟨hleft.binary hright place place' op, hrest⟩
      | _ => cases hclass
  | blank place =>
      obtain ⟨-, -, -, hclass, hbelow⟩ := root_of_names he hother h
      cases other with
      | blank place' => exact ⟨rfl, hbelow⟩
      | _ => cases hclass
  | missing =>
      obtain ⟨-, -, -, hclass, hbelow⟩ := root_of_names he hother h
      cases other with
      | missing => exact ⟨rfl, hbelow⟩
      | _ => cases hclass

theorem alike_of_names (he : e.Labelled) (hother : other.Labelled) (h : e.names = other.names) :
    e.Alike other :=
  (alike_of_names_append he hother (congrArg (· ++ []) h)).1

end Expr

end ArithAsm
