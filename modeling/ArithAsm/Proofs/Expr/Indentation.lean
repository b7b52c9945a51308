import ArithAsm.Expr.Address
import ArithAsm.Proofs.Expr.Drawing

/-!
# Indentation

The lines of an outline, one for each node in pre-order, are indented by the depths of the nodes.
Without the indentation they still tell which tree was written, and the level of the outline is
back where it was when this is done.
-/

namespace ArithAsm

open Text

namespace Expr

theorem outlineLines_eq_zipWith (level : Nat) (e : Expr) :
    e.outlineLines level = List.zipWith
      (fun address part ↦ outlineLine (level + address.length) part) e.addresses e.nodes := by
  induction e generalizing level with
  | negation place operand ih =>
      rw [outlineLines, addresses, nodes, List.zipWith_cons_cons, List.zipWith_map_left, ih]
      simp [Nat.add_assoc, Nat.add_comm 1]
  | binary place op left right ihl ihr =>
      rw [outlineLines, addresses, nodes, List.zipWith_cons_cons, List.zipWith_append (by simp),
        List.zipWith_map_left, List.zipWith_map_left, ihl, ihr]
      simp [Nat.add_assoc, Nat.add_comm 1]
  | _ => rfl

theorem length_outlineLines (level : Nat) (e : Expr) :
    (e.outlineLines level).length = e.nodes.length := by
  simp [outlineLines_eq_zipWith]

/-- What stands on a line behind its indentation. -/
def unindented (line : String) : String :=
  String.ofList (line.toList.dropWhile (· == ' '))

theorem unindented_outlineLine (level : Nat) (e : Expr) :
    unindented (e.outlineLine level) = e.label?.getD "" := by
  have hblanks : ∀ c ∈ List.replicate (2 * level) ' ', (c == ' ') = true := by simp
  have hlabel := e.head?_label_ne_blank
  rw [unindented, outlineLine, String.toList_append, String.toList_ofList,
    List.dropWhile_append_of_pos hblanks]
  cases htext : (e.label?.getD "").toList with
  | nil => rw [List.dropWhile_nil, ← htext, String.ofList_toList]
  | cons c rest =>
      have hc : c ≠ ' ' := by simpa [htext] using hlabel
      rw [List.dropWhile_cons_of_neg (by simpa using hc), ← htext, String.ofList_toList]

theorem map_unindented_outlineLines (level : Nat) (e : Expr) :
    (e.outlineLines level).map unindented = e.names := by
  induction e generalizing level with
  | negation place operand ih =>
      simp [outlineLines, unindented_outlineLine, ih, names, nodes]
  | binary place op left right ihl ihr =>
      simp [outlineLines, unindented_outlineLine, ihl, ihr, names, nodes]
  | _ => simp [outlineLines, unindented_outlineLine, names, nodes]

theorem outlineLine_ne_empty {e : Expr} (he : e.Labelled) (level : Nat) :
    e.outlineLine level ≠ "" := by
  intro hline
  have hlabel := e.unindented_outlineLine level
  rw [hline] at hlabel
  exact label_ne_empty he.label?_eq_some hlabel.symm

theorem ne_empty_of_mem_outlineLines {e : Expr} (he : e.Labelled) {level : Nat} :
    ∀ line ∈ e.outlineLines level, line ≠ "" := by
  induction e generalizing level with
  | negation place operand ih =>
      exact List.forall_mem_cons.mpr ⟨outlineLine_ne_empty he level, ih he.operand⟩
  | binary place op left right ihl ihr =>
      refine List.forall_mem_cons.mpr ⟨outlineLine_ne_empty he level, ?_⟩
      exact List.forall_mem_append.mpr ⟨ihl he.left, ihr he.right⟩
  | _ => exact List.forall_mem_singleton.mpr (outlineLine_ne_empty he level)

end Expr

namespace Outline

variable {e other : Expr}

theorem lines_outline (he : e.Labelled) :
    Text.lines ("\n".intercalate (e.outlineLines 0)) = e.outlineLines 0 :=
  lines_intercalate_newline fun line hline ↦
    ⟨(Expr.isPlain_of_mem_outlineLines line hline).isSingle,
      Expr.ne_empty_of_mem_outlineLines he line hline⟩

theorem outlineLines_of_outline_eq {text : String} (h : e.outline = .ok text)
    (h' : other.outline = .ok text) : e.outlineLines 0 = other.outlineLines 0 := by
  have he := labelled_of_outline h
  have hother := labelled_of_outline h'
  rw [outline_eq he] at h
  rw [outline_eq hother, ← h] at h'
  rw [← lines_outline he, ← lines_outline hother, Except.ok.inj h']

/-- An outline has one line for each node in pre-order.  It is indented by two blanks for each step
on the way to the node and goes on with the label of the node.  Where a number is too long there is
no outline.  Trees with the same outline differ in places only. -/
theorem print_indented (he : e.Operated) :
    (e.Short → ∃ (text : String) (lines : List String),
      (∀ o : Outline, ∃ after : Outline,
        (print e).run.run o = (.ok text, after) ∧ after.level = 0) ∧
      e.outline = .ok text ∧
      text = "\n".intercalate lines ∧ Text.lines text = lines ∧
      lines.length = e.nodes.length ∧
      ∀ (k : Nat) (part : Expr), e.nodes[k]? = some part →
        ∃ (address : List Nat) (label : String),
          e.addresses[k]? = some address ∧ e.partAt? address = some part ∧
          part.label? = some label ∧
          lines[k]? = some (String.ofList (List.replicate (2 * address.length) ' ') ++ label)) ∧
    (¬ e.Short → e.outline = .error .tooLong ∧
      ∀ o : Outline, ((print e).run.run o).1 = .error .tooLong) ∧
    ∀ (other : Expr) (text : String), other.Operated →
      e.outline = .ok text → other.outline = .ok text → e.Alike other := by
  refine ⟨fun hshort ↦ ?_, fun hlong ↦ ?_, fun other text _ h h' ↦ ?_⟩
  · have hlabelled := he.labelled_iff.mpr hshort
    refine ⟨_, e.outlineLines 0, fun o ↦ ⟨_, run_print hlabelled o, rfl⟩, outline_eq hlabelled, rfl,
      lines_outline hlabelled, e.length_outlineLines 0, fun k part hpart ↦ ?_⟩
    obtain ⟨address, haddress, hat⟩ := Expr.exists_address hpart
    obtain ⟨label, hlabel⟩ := hlabelled part (List.mem_of_getElem? hpart)
    refine ⟨address, label, haddress, hat, hlabel, ?_⟩
    rw [e.outlineLines_eq_zipWith, List.getElem?_zipWith, haddress, hpart]
    simp [Expr.outlineLine, hlabel]
  · have hfault := he.findSome?_labelFault? hlong
    exact ⟨run_print_eq_error hfault {}, run_print_eq_error hfault⟩
  · have hnames := congrArg (List.map Expr.unindented) (outlineLines_of_outline_eq h h')
    rw [Expr.map_unindented_outlineLines, Expr.map_unindented_outlineLines] at hnames
    exact Expr.alike_of_names (labelled_of_outline h) (labelled_of_outline h') hnames

/-- The outline of `-(1/2)`, and that of the same tree at another place. -/
theorem print_indented_negation :
    let place : Location := { line := 1, column := 4 }
    let quotient (place : Location) : Expr :=
      .binary place (some .div) (.literal place (some 1)) (.literal place (some 2))
    let e : Expr := .negation place (quotient place)
    let moved : Expr := .negation default (quotient default)
    e.Operated ∧ moved.Operated ∧ e.outline = moved.outline ∧
      (∃ lines : List String, e.outline = .ok ("\n".intercalate lines) ∧ lines.length = 4 ∧
        lines[3]? = some "    Literal(2)") ∧
      e.Alike moved := by
  intro place quotient e moved
  have he : e.Operated := ⟨rfl, trivial, trivial⟩
  have hmoved : moved.Operated := ⟨rfl, trivial, trivial⟩
  have hshort : e.Short := by decide
  have hsame : e.outline = moved.outline := rfl
  obtain ⟨hpicture, -, hdetermined⟩ := print_indented he
  obtain ⟨text, lines, -, houtline, rfl, -, hlength, hlines⟩ := hpicture hshort
  obtain ⟨address, label, haddress, -, hlabel, hline⟩ := hlines 3 (.literal place (some 2)) rfl
  obtain rfl := Option.some.inj haddress
  obtain rfl : label = "Literal(2)" := (Option.some.inj hlabel).symm
  exact ⟨he, hmoved, hsame, ⟨lines, houtline, hlength, hline⟩,
    hdetermined moved _ hmoved houtline (hsame ▸ houtline)⟩

/-- There is no outline of the first number that is too long. -/
theorem outline_of_long_literal :
    let e : Expr := .literal default (some leastLong)
    e.Operated ∧ ∀ text, e.outline ≠ .ok text := by
  refine ⟨trivial, fun text h ↦ not_isShort_leastLong ?_⟩
  exact (labelled_of_outline h).short _ rfl

end Outline

end ArithAsm
