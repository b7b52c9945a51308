import ArithAsm.Proofs.Toolchain.Endings

/-!
# Where a program is stored

The program of an executable is stored in the same directory, under the name that the executable has
without its suffix, followed by the suffix of assembly text.  So the program takes the place of the
executable just if that has this suffix already, and two executables of a directory share a program
just if their names differ in the suffix alone.
-/

namespace ArithAsm

open Attempt

namespace Path

/-! ## Suffixes -/

/-- A name ends in a suffix: a dot with something on both sides, and no dot behind it. -/
structure Suffixed (name base suffix : String) : Prop where
  eq_append : name = base ++ suffix
  base_ne : base ≠ ""
  exists_extension : ∃ extension : String,
    suffix = "." ++ extension ∧ extension ≠ "" ∧ '.' ∉ extension.toList

/-- A name is divided into what stands before its suffix and the suffix, which may be missing. -/
inductive Divided (name : String) : String → String → Prop where
  | suffixed {base suffix : String} (h : Suffixed name base suffix) : Divided name base suffix
  | bare (h : ∀ base suffix, ¬ Suffixed name base suffix) : Divided name name ""

theorem takeWhile_reverse_append {last : List Char} (hdot : '.' ∉ last) (rest : List Char) :
    (last.reverse ++ rest).takeWhile (· ≠ '.') = last.reverse ++ rest.takeWhile (· ≠ '.') := by
  refine List.takeWhile_append_of_pos fun c hc ↦ ?_
  rw [List.mem_reverse] at hc
  exact decide_eq_true fun hself ↦ hdot (hself ▸ hc)

/-- What stands behind the last dot of a name. -/
theorem takeWhile_reverse_of_dot {base extension : List Char} (hdot : '.' ∉ extension) :
    (base ++ '.' :: extension).reverse.takeWhile (· ≠ '.') = extension.reverse := by
  have hreverse : (base ++ '.' :: extension).reverse =
      extension.reverse ++ '.' :: base.reverse := by
    simp
  rw [hreverse, takeWhile_reverse_append hdot, List.takeWhile_cons_of_neg (by simp),
    List.append_nil]

theorem stem_append {base extension : List Char} (hdot : '.' ∉ extension) (hbase : base ≠ [])
    (hextension : extension ≠ []) : stem (base ++ '.' :: extension) = base := by
  have hb := List.length_pos_iff.mpr hbase
  have he := List.length_pos_iff.mpr hextension
  have hbefore : base.length + (extension.length + 1) - extension.length - 1 = base.length := by
    omega
  unfold stem
  rw [takeWhile_reverse_of_dot hdot]
  simp only [List.length_append, List.length_cons, List.length_reverse]
  rw [hbefore, if_pos ⟨he, by omega, hb⟩, List.take_left]

/-- A dot at one end of a name is no beginning of a suffix. -/
theorem stem_append_of_end {base extension : List Char} (hdot : '.' ∉ extension)
    (hend : base = [] ∨ extension = []) :
    stem (base ++ '.' :: extension) = base ++ '.' :: extension := by
  unfold stem
  rw [takeWhile_reverse_of_dot hdot]
  refine if_neg ?_
  simp only [List.length_append, List.length_cons, List.length_reverse]
  rcases hend with rfl | rfl
  · rw [List.length_nil]
    omega
  · rw [List.length_nil]
    omega

theorem stem_of_notMem {name : List Char} (hdot : '.' ∉ name) : stem name = name := by
  have hall := takeWhile_reverse_append hdot []
  rw [List.append_nil, List.takeWhile_nil, List.append_nil] at hall
  unfold stem
  rw [hall, List.length_reverse]
  exact if_neg fun h ↦ Nat.lt_irrefl _ h.2.1

variable {name base suffix : String}

theorem Suffixed.stem_eq (h : Suffixed name base suffix) :
    String.ofList (stem name.toList) = base := by
  obtain ⟨extension, rfl, hextension, hdot⟩ := h.exists_extension
  have hbase : base.toList ≠ [] := mt String.toList_eq_nil_iff.mp h.base_ne
  have hbehind : extension.toList ≠ [] := mt String.toList_eq_nil_iff.mp hextension
  have hname : name.toList = base.toList ++ '.' :: extension.toList := by
    rw [h.eq_append, String.toList_append, String.toList_append]
    rfl
  rw [hname, stem_append hdot hbase hbehind, String.ofList_toList]

theorem stem_eq_of_not_suffixed (h : ∀ base suffix, ¬ Suffixed name base suffix) :
    stem name.toList = name.toList := by
  by_cases hdot : '.' ∈ name.toList
  · -- The last dot of the name is the first one from behind.
    obtain ⟨last, front, hreverse, hlast⟩ :=
      List.eq_append_cons_of_mem (List.mem_reverse.mpr hdot)
    have hname : name.toList = front.reverse ++ '.' :: last.reverse := by
      rw [← List.reverse_reverse name.toList, hreverse]
      simp
    have hfree : '.' ∉ last.reverse := mt List.mem_reverse.mp hlast
    rw [hname]
    refine stem_append_of_end hfree ?_
    by_cases hfront : front.reverse = []
    · exact .inl hfront
    · by_cases hbehind : last.reverse = []
      · exact .inr hbehind
      · refine (h (.ofList front.reverse) ("." ++ .ofList last.reverse) ⟨?_, ?_, ?_⟩).elim
        · rw [← String.toList_inj, hname]
          simp
        · rw [Ne, ← String.toList_eq_nil_iff, String.toList_ofList]
          exact hfront
        · refine ⟨.ofList last.reverse, rfl, ?_, ?_⟩
          · rw [Ne, ← String.toList_eq_nil_iff, String.toList_ofList]
            exact hbehind
          · rw [String.toList_ofList]
            exact hfree
  · exact stem_of_notMem hdot

namespace Divided

theorem eq_append (h : Divided name base suffix) : name = base ++ suffix := by
  cases h with
  | suffixed h => exact h.eq_append
  | bare => exact String.append_empty.symm

theorem stem_eq (h : Divided name base suffix) : String.ofList (stem name.toList) = base := by
  cases h with
  | suffixed h => exact h.stem_eq
  | bare h => rw [stem_eq_of_not_suffixed h, String.ofList_toList]

theorem unique (h : Divided name base suffix) {other rest : String}
    (hother : Divided name other rest) : other = base ∧ rest = suffix := by
  have hbase : other = base := hother.stem_eq.symm.trans h.stem_eq
  subst hbase
  exact ⟨rfl, (String.append_right_inj other).mp (hother.eq_append.symm.trans h.eq_append)⟩

theorem exists_divided (name : String) : ∃ base suffix, Divided name base suffix := by
  by_cases h : ∃ base suffix, Suffixed name base suffix
  · obtain ⟨base, suffix, h⟩ := h
    exact ⟨base, suffix, .suffixed h⟩
  · exact ⟨name, "", .bare fun base suffix hs ↦ h ⟨base, suffix, hs⟩⟩

end Divided

/-! ## Names in a directory -/

variable {home : List String} {path : Path}

theorem join_parent_name (h : path.name ≠ "") : path.parent.join path.name = path := by
  obtain ⟨anchor, parts⟩ := path
  cases hlast : parts.getLast? with
  | none => exact (h (by simp [Path.name, hlast])).elim
  | some last =>
      obtain ⟨above, rfl⟩ := List.getLast?_eq_some_iff.mp hlast
      simp [Path.name, parent, join]

theorem withSuffix?_eq (hname : path.name ≠ "") (h : Divided path.name base suffix)
    (other : String) : path.withSuffix? other = some (path.parent.join (base ++ other)) := by
  have hsome : ¬ path.name.isEmpty = true := mt String.isEmpty_iff.mp hname
  unfold withSuffix?
  rw [if_neg hsome, h.stem_eq]

theorem resolve_join_up (home : List String) (path : Path) :
    ((path.join "..").resolve home).parts = (path.resolve home).parts.dropLast := by
  obtain ⟨start, hstart⟩ := exists_resolve_parts home path
  calc ((path.join "..").resolve home).parts
      = climbFrom start (path.parts ++ [".."]) := hstart (path.parts ++ [".."])
    _ = (climbFrom start path.parts).dropLast := by
      rw [climbFrom_append]
      rfl
    _ = (path.resolve home).parts.dropLast := by rw [← hstart path.parts]

/-- Two names stand for different places in a directory, even if the second one leads upwards. -/
theorem eq_of_resolve_join_eq {name other : String} (hname : name ≠ "..")
    (h : ((path.join name).resolve home).parts = ((path.join other).resolve home).parts) :
    name = other := by
  rw [resolve_join hname] at h
  by_cases hother : other = ".."
  · subst hother
    rw [resolve_join_up] at h
    have hlength := congrArg List.length h
    rw [List.length_append, List.length_dropLast, List.length_singleton] at hlength
    omega
  · rw [resolve_join hother] at h
    simpa using h

/-! ## Names of programs -/

/-- The name of a program ends as its suffix does. -/
theorem append_ne_of_getLast? (base : String) {name : String}
    (hname : name.toList.getLast? ≠ some 's') : base ++ ".s" ≠ name := by
  rintro rfl
  simp at hname

theorem append_ne_up (base : String) : base ++ ".s" ≠ ".." :=
  append_ne_of_getLast? base (by decide)

theorem Divided.join_eq_self (hname : path.name ≠ "") (h : Divided path.name base suffix) :
    path.parent.join (base ++ suffix) = path := by
  rw [← h.eq_append, join_parent_name hname]

theorem Divided.append_ne (h : Divided name base suffix) {other : String} (hother : suffix ≠ other) :
    base ++ other ≠ name := by
  rw [h.eq_append]
  exact fun hself ↦ hother ((String.append_right_inj base).mp hself).symm

theorem Divided.append_eq_iff (h : Divided name base suffix) (other : String) :
    base ++ other = name ++ other ↔ suffix = "" := by
  rw [String.append_left_inj, h.eq_append]
  constructor
  · intro hself
    exact ((String.append_right_inj base).mp (String.append_empty.trans hself)).symm
  · rintro rfl
    exact String.append_empty.symm

/-- Two names in a directory get the same program just if they differ in the suffix alone. -/
theorem resolve_program_eq_iff {other program : Path} {directory : Path}
    (h : Divided name base suffix) (hother : other.withSuffix? assemblySuffix = some program)
    (hdirectory : (other.parent.resolve home).parts = (directory.resolve home).parts) :
    (program.resolve home).parts = ((directory.join (base ++ ".s")).resolve home).parts ↔
      ∃ otherSuffix, Divided other.name base otherSuffix := by
  have hname : other.name ≠ "" := by
    intro hempty
    unfold withSuffix? at hother
    rw [if_pos (String.isEmpty_iff.mpr hempty)] at hother
    cases hother
  obtain ⟨otherBase, otherSuffix, hdivided⟩ := Divided.exists_divided other.name
  obtain rfl : program = other.parent.join (otherBase ++ ".s") :=
    Option.some_inj.mp (hother.symm.trans (withSuffix?_eq hname hdivided assemblySuffix))
  rw [resolve_join (append_ne_up otherBase), resolve_join (append_ne_up base), hdirectory]
  have hbases : (directory.resolve home).parts ++ [otherBase ++ ".s"] =
      (directory.resolve home).parts ++ [base ++ ".s"] ↔ otherBase = base := by
    simp
  rw [hbases]
  constructor
  · rintro rfl
    exact ⟨otherSuffix, hdivided⟩
  · rintro ⟨rest, hrest⟩
    exact (hrest.unique hdivided).1

end Path

namespace Deed

variable {world after stored : World} {settings : ToolchainSettings} {assembly : String}
  {executable program : Path}

theorem run_assemble_cases {result : Except Failure Path}
    (hprogram : executable.withSuffix? assemblySuffix = some program)
    (hscratch : world.scratch = none)
    (h : (assemble settings assembly executable).run.run world = (result, after)) :
    (∃ failure, (store program assembly).run.run world = (.error failure, world) ∧
      result = .error failure ∧ after = world) ∨
    world.workspace.store program assembly = .ok after.workspace ∧
      after.commands = world.commands ++ [settings.compileCommand executable program] := by
  rcases hstore : (store program assembly).run.run world with ⟨failure | _, stored⟩
  · obtain rfl := eq_of_run_store_error hstore
    rw [run_assemble_of_error settings hprogram hstore] at h
    cases h
    exact .inl ⟨failure, rfl, rfl, rfl⟩
  · obtain ⟨ended, hlink, -⟩ := run_link settings executable program stored
    cases ((run_assemble_of_ok settings hprogram hstore).trans hlink).symm.trans h
    rcases run_store_outside hscratch hstore with ⟨_, hfail, -⟩ | ⟨-, hstored, hcommands⟩
    · cases hfail
    · exact .inr ⟨hstored, congrArg (· ++ _) hcommands⟩

/-- The program of an executable is stored beside it, under the name without its suffix and with the
suffix of assembly text.  So it has the name of the executable with this suffix behind just if that
has no suffix; it is the executable itself just if that has this suffix already; and it is also the
program of another executable in the directory just if the two names differ in the suffix alone. -/
theorem run_assemble_by_suffix (settings : ToolchainSettings) (assembly : String)
    {executable : Path} (hname : executable.name ≠ "") {world : World}
    (hscratch : world.scratch = none) :
    ∃ base suffix, Path.Divided executable.name base suffix ∧
      let home := world.workspace.home
      let program := executable.parent.join (base ++ ".s")
      let place := (program.resolve home).parts
      let outcome := (assemble settings assembly executable).run.run world
      let build : Command :=
        ⟨settings.compiler :: settings.flags ++ ["-o", executable.text, program.text],
          settings.timeout, true⟩
      ((∃ failure, (store program assembly).run.run world = (.error failure, world) ∧
          outcome = (.error failure, world)) ∨
        outcome.2.workspace.fileAt? place = some assembly ∧
        (∀ other, other ≠ place →
          outcome.2.workspace.find? other = world.workspace.find? other) ∧
        outcome.2.commands = world.commands ++ [build]) ∧
      (program.name = executable.name ++ ".s" ↔ suffix = "") ∧
      (suffix = ".s" → program = executable) ∧
      (suffix ≠ ".s" → place ≠ (executable.resolve home).parts ∧ program.text ≠ executable.text) ∧
      ∀ other otherProgram : Path, other.withSuffix? assemblySuffix = some otherProgram →
        (other.parent.resolve home).parts = (executable.parent.resolve home).parts →
        ((otherProgram.resolve home).parts = place ↔
          ∃ otherSuffix, Path.Divided other.name base otherSuffix) := by
  obtain ⟨base, suffix, hdivided⟩ := Path.Divided.exists_divided executable.name
  refine ⟨base, suffix, hdivided, ?_⟩
  intro home program place outcome build
  have hself : executable.parent.join executable.name = executable := Path.join_parent_name hname
  refine ⟨?_, ?_, ?_, ?_, ?_⟩
  · have hprogram : executable.withSuffix? assemblySuffix = some program :=
      Path.withSuffix?_eq hname hdivided assemblySuffix
    rcases run_assemble_cases hprogram hscratch (rfl : _ = (outcome.1, outcome.2)) with
      ⟨failure, hstore, hresult, hafter⟩ | ⟨hstored, hcommands⟩
    · exact .inl ⟨failure, hstore, Prod.ext hresult hafter⟩
    · have hnull : place ≠ Workspace.nullDevice :=
        Path.resolve_join_ne_nullDevice (Path.append_ne_up base)
          (Path.append_ne_of_getLast? base (by decide))
      refine .inr ⟨Workspace.fileAt?_of_store hnull hstored, fun other hother ↦ ?_, hcommands⟩
      rw [(Workspace.eq_put_of_store hnull hstored).1]
      exact Workspace.find?_put_of_ne _ hother
  · unfold program
    rw [Path.name_join]
    exact hdivided.append_eq_iff ".s"
  · rintro rfl
    exact hdivided.join_eq_self hname
  · intro hsuffix
    have hne := hdivided.append_ne hsuffix
    rw [← hself]
    constructor
    · exact fun hplace ↦ hne (Path.eq_of_resolve_join_eq (Path.append_ne_up base) hplace)
    · exact fun htext ↦ hne (Path.text_join_inj.mp htext)
  · intro other otherProgram hother hdirectory
    exact Path.resolve_program_eq_iff hdivided hother hdirectory

/-- An executable that is its own program, and two that have the same one. -/
theorem run_assemble_by_suffix_shared :
    let world : World := {
      workspace := { home := ["work"] }
      temporary := { anchor := .root, parts := ["tmp", "scratch"] } }
    let assembled : String → World := fun text ↦
      ((assemble {} "  ret\n" (.ofText text)).run.run world).2
    world.scratch = none ∧
    (assembled "out.s").commands.map Command.words = [["cc", "-o", "out.s", "out.s"]] ∧
    (assembled "a.x").workspace.fileAt? ["work", "a.s"] = some "  ret\n" ∧
    ∃ program, (Path.ofText "a.y").withSuffix? assemblySuffix = some program ∧
      (program.resolve world.workspace.home).parts = ["work", "a.s"] := by
  intro world assembled
  have hstarted : ∀ text ∈ ["out.s", "a.x"], (assembled text).commands ≠ [] := by decide +kernel
  have hout : Path.Divided (Path.ofText "out.s").name "out" ".s" :=
    .suffixed ⟨rfl, by decide, "s", rfl, by decide, by decide⟩
  have hx : Path.Divided (Path.ofText "a.x").name "a" ".x" :=
    .suffixed ⟨rfl, by decide, "x", rfl, by decide, by decide⟩
  have hy : Path.Divided (Path.ofText "a.y").name "a" ".y" :=
    .suffixed ⟨rfl, by decide, "y", rfl, by decide, by decide⟩
  refine ⟨rfl, ?_, ?_⟩
  · obtain ⟨base, suffix, hdivided, hwritten, -, hself, -⟩ :=
      @run_assemble_by_suffix {} "  ret\n" (.ofText "out.s") (by decide) world rfl
    obtain ⟨rfl, rfl⟩ := hout.unique hdivided
    rcases hwritten with ⟨failure, -, houtcome⟩ | ⟨-, -, hcommands⟩
    · exact (hstarted "out.s" (by decide) (congrArg (fun outcome ↦ outcome.2.commands) houtcome)).elim
    · rw [hself rfl] at hcommands
      exact congrArg (List.map Command.words) hcommands
  · obtain ⟨base, suffix, hdivided, hwritten, -, -, -, hshared⟩ :=
      @run_assemble_by_suffix {} "  ret\n" (.ofText "a.x") (by decide) world rfl
    obtain ⟨rfl, rfl⟩ := hx.unique hdivided
    rcases hwritten with ⟨failure, -, houtcome⟩ | ⟨hstored, -, -⟩
    · exact (hstarted "a.x" (by decide) (congrArg (fun outcome ↦ outcome.2.commands) houtcome)).elim
    · refine ⟨hstored, _, rfl, ?_⟩
      exact (hshared (.ofText "a.y") _ rfl rfl).mpr ⟨".y", hy⟩

end Deed

end ArithAsm
