import ArithAsm.Proofs.Toolchain.Endings

/-!
# What a build touches

A build stores its program, starts the compiler, and starts what the compiler was to make once that
has done its work.  In a work directory no file but the program differs afterwards, and no directory
is new but this one and those above it.  Without a work directory everything is as it was.
-/

namespace ArithAsm

open Attempt

namespace Workspace

variable {before made after : Workspace} {directory : Path} {content : String}

/-- A build in a directory has changed nothing but its program and the way to the directory. -/
structure TouchedBy (directory : Path) (before after : Workspace) : Prop where
  /-- No file but the program is new, gone or of another content. -/
  files : ∀ place, after.fileAt? place ≠ before.fileAt? place →
    place = ((directory.join "tmp.s").resolve before.home).parts
  /-- No directory is new but the one of the build and those above it. -/
  directories : ∀ place, after.find? place = some .directory →
    before.find? place ≠ some .directory → directory.Passes before.home place
  /-- No directory is gone. -/
  standing : ∀ place, before.find? place = some .directory → after.find? place = some .directory

/-- On a path without steps upwards, the new directories are those on the way from the root. -/
theorem TouchedBy.isPrefix (h : TouchedBy directory before after) (hup : ".." ∉ directory.parts)
    {place : List String} (hafter : after.find? place = some .directory)
    (hbefore : before.find? place ≠ some .directory) :
    place <+: (directory.resolve before.home).parts :=
  prefix_of_passes (h.directories place hafter hbefore) hup

theorem Grows.touchedBy (h : Grows (directory.Passes before.home) before after) :
    TouchedBy directory before after := by
  refine ⟨fun place hplace ↦ (hplace (h.fileAt?_eq place)).elim, ?_, ?_⟩
  · intro place hafter hbefore
    rw [← hafter] at hbefore
    exact (h.places place hbefore.symm).2.2
  · intro place hbefore
    by_cases hsame : after.find? place = before.find? place
    · exact hsame.trans hbefore
    · exact (h.places place hsame).2.1

/-- No program is stored in the null device. -/
theorem program_ne_nullDevice (directory : Path) (home : List String) :
    ((directory.join "tmp.s").resolve home).parts ≠ nullDevice :=
  Path.resolve_join_ne_nullDevice (by decide) (by decide)

/-- The program takes the place of no directory. -/
theorem TouchedBy.store (h : TouchedBy directory before made) (hhome : made.home = before.home)
    (hstore : made.store (directory.join "tmp.s") content = .ok after) :
    TouchedBy directory before after := by
  obtain ⟨rfl, hfree⟩ := eq_put_of_store (program_ne_nullDevice directory made.home) hstore
  rw [hhome] at hfree ⊢
  have hdirectory : ∀ place, (made.put ((directory.join "tmp.s").resolve before.home).parts
      (.file content)).find? place = some .directory ↔ made.find? place = some .directory := by
    intro place
    by_cases hplace : place = ((directory.join "tmp.s").resolve before.home).parts
    · subst hplace
      rw [find?_put_self _ (program_ne_nullDevice directory before.home) hfree]
      exact iff_of_false nofun hfree
    · rw [find?_put_of_ne _ hplace]
  refine ⟨fun place hplace ↦ ?_, fun place hafter ↦ ?_, fun place hbefore ↦ ?_⟩
  · refine Classical.byContradiction fun hother ↦ hother (h.files place ?_)
    rwa [(Keeps.put (.file content)).files place hother] at hplace
  · exact h.directories place ((hdirectory place).mp hafter)
  · exact (hdirectory place).mpr (h.standing place hbefore)

end Workspace

namespace Deed

variable {world after stored : World} {path directory : Path} {settings : ToolchainSettings}
  {assembly content : String}

/-- A text that is stored in the temporary directory is stored nowhere else. -/
theorem workspace_of_run_store_temporary {scratch : Workspace} {name : String}
    (h : (store (world.temporary.join name) content).run.run { world with scratch := some scratch } =
      (.ok (), stored)) : stored.workspace = world.workspace := by
  rcases run_store_cases h with ⟨_, hfail, -⟩ | ⟨_, -, -, hplace, -⟩ | ⟨_, _, _, -, -, -, -, rfl⟩
  · cases hfail
  · rw [World.placeOf?_eq_none rfl (Path.below?_join _ _)] at hplace
    cases hplace
  · rfl

/-- A text that was stored is there to be read, in the temporary directory or outside it. -/
theorem textAt?_of_run_store_ok {name : String} (hup : name ≠ "..") (hnull : name ≠ "null")
    (h : (store (directory.join name) content).run.run world = (.ok (), stored)) :
    stored.textAt? (directory.join name) = some content := by
  have hkeeps : World.Keeps (fun _ ↦ True) world
      ((store (directory.join name) content).run.run world).2 := .store fun _ _ ↦ trivial
  rw [h] at hkeeps
  rcases run_store_cases h with ⟨_, hfail, -⟩ | ⟨workspace, -, hstore, hplace, rfl⟩ |
    ⟨old, inner, scratch, -, hscratch, hbelow, hstore, rfl⟩
  · cases hfail
  · have hhome : workspace.home = world.workspace.home := hkeeps.workspace.home
    refine (World.textAt?_of_placeOf? ((hkeeps.placeOf?_eq _).trans hplace)).trans ?_
    dsimp only
    rw [hhome]
    exact Workspace.fileAt?_of_store (Path.resolve_join_ne_nullDevice hup hnull) hstore
  · have hhome : scratch.home = old.home := (Workspace.Keeps.store hstore).home
    have hread : World.textAt? { world with scratch := some scratch } (directory.join name) =
        scratch.fileAt? (inner.resolve scratch.home).parts := World.textAt?_of_below? rfl hbelow
    rw [hread, hhome]
    rcases Path.below?_join_cases hbelow with hempty | ⟨above, rfl⟩
    · exact (Workspace.parts_ne_nil_of_store hstore hempty).elim
    · exact Workspace.fileAt?_of_store (Path.resolve_join_ne_nullDevice hup hnull) hstore

/-- A world in which a build calls the compiler: no command was started yet, the program is there to
be read, and the rest of the build goes on from here. -/
structure Ready (settings : ToolchainSettings) (assembly : String) (directory : Path)
    (world ready : World) (result : Except Failure Int) (after : World) : Prop where
  commands : ready.commands = world.commands
  text : ready.textAt? (directory.join "tmp.s") = some assembly
  rest : (start (settings.buildCommand directory) >>= fun ending ↦
    finishLink settings (directory.join executableName) (directory.join "tmp.s") ending >>=
      fun executable ↦ execute settings executable.text executable).run.run ready = (result, after)

/-- Only the commands of the world before the build matter. -/
theorem Ready.of_commands {other ready : World} {result : Except Failure Int}
    (h : Ready settings assembly directory world ready result after)
    (hcommands : world.commands = other.commands) :
    Ready settings assembly directory other ready result after :=
  ⟨h.commands.trans hcommands, h.text, h.rest⟩

/-- A build fails at once where its program cannot be stored.  Else it calls the compiler. -/
theorem run_buildIn_cases {result : Except Failure Int}
    (h : (buildIn settings assembly directory).run.run world = (result, after)) :
    let build := settings.buildCommand directory
    let run := settings.runCommand directory world.workspace.home
    (∃ failure, result = .error failure ∧ after = world) ∨
    ∃ stored started, (store (directory.join "tmp.s") assembly).run.run world = (.ok (), stored) ∧
      Concluded build run (directory.join executableName) (world.outcome build)
        ((world.started build).outcome run) result started ∧
      after.commands = world.commands ++ started ∧ after.workspace = stored.workspace ∧
      ∃ ready, Ready settings assembly directory world ready result after := by
  intro build run
  rcases hstore : (store (directory.join "tmp.s") assembly).run.run world with
    ⟨failure | _, stored⟩
  · have hassemble := run_assemble_of_error settings (Path.withSuffix?_join directory) hstore
    unfold buildIn at h
    rw [run_bind_of_error hassemble] at h
    cases h
    exact .inl ⟨failure, rfl, eq_of_run_store_error hstore⟩
  · obtain ⟨ended, built, started, hrun, hbuilt, hcommands, hworkspace⟩ :=
      run_buildIn settings hstore
    cases hrun.symm.trans h
    refine .inr ⟨stored, started, rfl, hbuilt, hcommands, hworkspace, ?_⟩
    have htext : stored.textAt? (directory.join "tmp.s") = some assembly :=
      textAt?_of_run_store_ok (by decide) (by decide) hstore
    rw [run_buildIn_of_ok settings hstore, run_bind, run_link_eq, ← run_bind, bind_assoc] at h
    -- What is reported before the call changes no file.
    let ready := stored.noting
      [.running (settings.command (directory.join executableName) (directory.join "tmp.s"))]
    exact ⟨ready, (eq_of_run_store_ok hstore).1, htext, h⟩

/-- The commands that a build starts: none where its program cannot be stored; else the compiler,
and the program after it just if the compiler has ended well. -/
inductive Launched (build run : Command) (first : Except Failure (Ending String))
    (result : Except Failure Int) : List Command → Prop where
  | nothing {failure : Failure} (h : result = .error failure) : Launched build run first result []
  | compiler {failure : Failure} (h : result = .error failure)
      (hfirst : ∀ errors, first ≠ .ok (.exit 0 errors)) : Launched build run first result [build]
  | program {errors : String} (h : first = .ok (.exit 0 errors)) :
      Launched build run first result [build, run]

theorem Concluded.launched {build run : Command} {executable : Path}
    {first second : Except Failure (Ending String)} {result : Except Failure Int}
    {started : List Command} (h : Concluded build run executable first second result started) :
    Launched build run first result started := by
  cases h with
  | unbuilt hbuild => exact .compiler rfl hbuild.of_error.1
  | built hbuild hrun =>
      obtain ⟨-, errors, hfirst⟩ := hbuild.of_ok
      exact .program hfirst

/-- What a build may have done: it has started at most the compiler and then the executable that the
compiler was told to make, and it has touched nothing but its program and the way there. -/
structure Confined (settings : ToolchainSettings) (assembly : String) (world : World)
    (result : Except Failure Int) (after : World) : Prop where
  /-- The executable is started by its full path alone, and only if the compiler has ended well. -/
  commands :
    let executable := (settings.workDir.getD world.temporary).join "tmp"
    let program := (settings.workDir.getD world.temporary).join "tmp.s"
    let build : Command :=
      ⟨settings.compiler :: settings.flags ++ ["-o", executable.text, program.text],
        settings.timeout, true⟩
    let run : Command :=
      ⟨[(executable.resolve world.workspace.home).text], settings.timeout, false⟩
    ∃ started, after.commands = world.commands ++ started ∧
      Launched build run (world.outcome build) result started
  /-- Nothing is left in a temporary directory. -/
  scratch : after.scratch = none
  /-- Without a work directory nothing differs. -/
  unchanged : settings.workDir = none → after.workspace = world.workspace
  touched : ∀ directory, settings.workDir = some directory →
    Workspace.TouchedBy directory world.workspace after.workspace
  /-- The compiler is not started before the program is stored, in the directory of the build. -/
  ready : after.commands ≠ world.commands → ∃ ready ended,
    Ready settings assembly (settings.workDir.getD world.temporary) world ready result ended ∧
    after = { ended with scratch := none }
  /-- In a work directory the program stays. -/
  stored : ∀ directory, settings.workDir = some directory → after.commands ≠ world.commands →
    after.workspace.fileAt? ((directory.join "tmp.s").resolve world.workspace.home).parts =
      some assembly

variable {result : Except Failure Int}

theorem confined_of_temporary (hdirectory : settings.workDir = none)
    (h : (buildAndRun settings assembly).run.run world = (result, after)) :
    Confined settings assembly world result after := by
  unfold buildAndRun at h
  rw [hdirectory] at h
  dsimp only at h
  rw [run_withTemporary] at h
  rcases hbuild : (buildIn settings assembly world.temporary).run.run
    { world with scratch := some {} } with ⟨ended, built⟩
  rw [hbuild] at h
  cases h
  have hnone : ∀ directory, settings.workDir ≠ some directory := by
    intro directory hsome
    cases hdirectory.symm.trans hsome
  rcases run_buildIn_cases hbuild with ⟨failure, hfailure, rfl⟩ |
    ⟨stored, started, hstore, hconcluded, hcommands, hworkspace, ready, hready⟩
  · refine ⟨⟨[], (List.append_nil _).symm, .nothing hfailure⟩, rfl, fun _ ↦ rfl, ?_, ?_, ?_⟩
    · exact fun directory hsome ↦ (hnone directory hsome).elim
    · exact fun hstarted ↦ (hstarted rfl).elim
    · exact fun directory hsome ↦ (hnone directory hsome).elim
  · refine ⟨?_, rfl, ?_, ?_, ?_, ?_⟩
    · rw [hdirectory]
      exact ⟨started, hcommands, hconcluded.launched⟩
    · exact fun _ ↦ hworkspace.trans (workspace_of_run_store_temporary hstore)
    · exact fun directory hsome ↦ (hnone directory hsome).elim
    · rw [hdirectory]
      exact fun _ ↦ ⟨ready, built, hready.of_commands rfl, rfl⟩
    · exact fun directory hsome ↦ (hnone directory hsome).elim

/-- In a work directory a build fails before it starts a command, or it has stored its program. -/
theorem run_workDir_cases (hdirectory : settings.workDir = some directory)
    (hscratch : world.scratch = none)
    (h : (buildAndRun settings assembly).run.run world = (result, after)) :
    ∃ made, world.workspace.Grows (directory.Passes world.workspace.home) made ∧
      ((∃ failure, result = .error failure ∧ after = { world with workspace := made }) ∨
      ∃ started ready, made.store (directory.join "tmp.s") assembly = .ok after.workspace ∧
        after.commands = world.commands ++ started ∧
        Launched (settings.buildCommand directory)
          (settings.runCommand directory world.workspace.home)
          (world.outcome (settings.buildCommand directory)) result started ∧
        Ready settings assembly directory world ready result after) := by
  obtain ⟨made, hgrows, hmade⟩ := run_ensure_cases directory world
  refine ⟨made, hgrows, ?_⟩
  unfold buildAndRun at h
  rw [hdirectory] at h
  dsimp only at h
  rcases run_bind_cases h with ⟨failure, hensure, rfl⟩ | ⟨_, between, hensure, hbuild⟩
  · rw [hensure] at hmade
    exact .inl ⟨failure, rfl, hmade⟩
  · rw [hensure] at hmade
    obtain rfl : between = { world with workspace := made } := hmade
    rcases run_buildIn_cases hbuild with ⟨failure, rfl, rfl⟩ |
      ⟨stored, started, hstore, hconcluded, hcommands, hworkspace, ready, hready⟩
    · exact .inl ⟨failure, rfl, rfl⟩
    · have hlaunched := hconcluded.launched
      dsimp only at hlaunched
      rw [hgrows.home] at hlaunched
      have hnone : { world with workspace := made }.scratch = none := hscratch
      rcases run_store_outside hnone hstore with ⟨_, hfail, -⟩ | ⟨-, hstored, -⟩
      · cases hfail
      · rw [← hworkspace] at hstored
        exact .inr ⟨started, ready, hstored, hcommands, hlaunched, hready.of_commands rfl⟩

theorem confined_of_workDir (hdirectory : settings.workDir = some directory)
    (hscratch : world.scratch = none)
    (h : (buildAndRun settings assembly).run.run world = (result, after)) :
    Confined settings assembly world result after := by
  have hkeeps : World.Keeps (fun _ ↦ True) world
      ((buildAndRun settings assembly).run.run world).2 :=
    .buildAndRun hscratch fun _ _ ↦ trivial
  rw [h] at hkeeps
  have hgone : after.scratch = none := by simpa [hscratch] using hkeeps.scratch
  have hself : ∀ other, settings.workDir = some other → other = directory := by
    intro other hother
    exact Option.some_inj.mp (hother.symm.trans hdirectory)
  obtain ⟨made, hgrows, ⟨failure, rfl, rfl⟩ |
      ⟨started, ready, hstored, hcommands, hlaunched, hready⟩⟩ :=
    run_workDir_cases hdirectory hscratch h
  · refine ⟨⟨[], (List.append_nil _).symm, .nothing rfl⟩, hgone, ?_, ?_, ?_, ?_⟩
    · intro hnone
      cases hdirectory.symm.trans hnone
    · intro other hother
      obtain rfl := hself other hother
      exact hgrows.touchedBy
    · exact fun hstarted ↦ (hstarted rfl).elim
    · exact fun other hother hstarted ↦ (hstarted rfl).elim
  · refine ⟨?_, hgone, ?_, ?_, ?_, ?_⟩
    · rw [hdirectory]
      exact ⟨started, hcommands, hlaunched⟩
    · intro hnone
      cases hdirectory.symm.trans hnone
    · intro other hother
      obtain rfl := hself other hother
      exact hgrows.touchedBy.store hgrows.home hstored
    · intro hstarted
      rw [hdirectory]
      refine ⟨ready, after, hready, ?_⟩
      rw [← hgone]
    · intro other hother hstarted
      obtain rfl := hself other hother
      rw [← hgrows.home]
      exact Workspace.fileAt?_of_store (Workspace.program_ne_nullDevice other made.home) hstored

theorem exists_run_settings (given : Option ToolchainSettings) (world : World) :
    ∃ events, ((Deed.settings given).run.run world).2 = world.noting events := by
  cases given with
  | none =>
      unfold Deed.settings
      rw [run_bind_of_ok (run_get world), run_ofLogged]
      exact ⟨_, rfl⟩
  | some settings =>
      refine ⟨[], ?_⟩
      unfold World.noting
      rw [List.append_nil]
      rfl

/-- However a build ends, it is confined to its own products, whether its settings are given or come
from the environment.  Without settings it does nothing. -/
theorem buildAndRun_confined (given : Option ToolchainSettings) (assembly : String)
    (hscratch : world.scratch = none) :
    let chosen := ((Deed.settings given).run.run world).1
    let outcome := (Deed.settings given >>= fun settings ↦
      buildAndRun settings assembly).run.run world
    (∀ failure, chosen = .error failure → outcome.1 = .error failure ∧
      outcome.2.commands = world.commands ∧ outcome.2.workspace = world.workspace) ∧
    ∀ settings, chosen = .ok settings →
      Confined settings assembly world outcome.1 outcome.2 := by
  intro chosen outcome
  obtain ⟨events, hnoted⟩ := exists_run_settings given world
  rcases hchosen : (Deed.settings given).run.run world with ⟨read, noted⟩
  rw [hchosen] at hnoted
  obtain rfl : noted = world.noting events := hnoted
  have hread : chosen = read := congrArg Prod.fst hchosen
  rw [hread]
  unfold outcome
  constructor
  · rintro failure rfl
    rw [run_bind_of_error hchosen]
    exact ⟨rfl, rfl, rfl⟩
  · rintro settings rfl
    rw [run_bind_of_ok hchosen]
    have hnone : (world.noting events).scratch = none := hscratch
    have hconfined : Confined settings assembly (world.noting events)
        ((buildAndRun settings assembly).run.run (world.noting events)).1
        ((buildAndRun settings assembly).run.run (world.noting events)).2 := by
      cases hdirectory : settings.workDir with
      | none => exact confined_of_temporary hdirectory rfl
      | some directory => exact confined_of_workDir hdirectory hnone rfl
    refine ⟨hconfined.commands, hconfined.scratch, hconfined.unchanged, hconfined.touched, ?_,
      hconfined.stored⟩
    intro hstarted
    obtain ⟨ready, ended, hready, hafter⟩ := hconfined.ready hstarted
    exact ⟨ready, ended, hready.of_commands rfl, hafter⟩

/-- A program that may not be started leaves its text in a work directory, and nothing in a temporary
one. -/
theorem buildAndRun_confined_refused :
    let world : World := {
      workspace := { home := ["work"], entries := [(["work", "notes"], .file "old")] }
      temporary := { anchor := .root, parts := ["tmp", "scratch"] }
      endings := [.exit 0 "", .refused 13 "Permission denied"] }
    let build : Option Path → World := fun workDir ↦
      ((Deed.settings (some { workDir }) >>= fun settings ↦
        buildAndRun settings "  ret\n").run.run world).2
    let kept := build (some (.ofText "out/build"))
    let program := ["work", "out", "build", "tmp.s"]
    world.scratch = none ∧
    kept.commands.map Command.words =
      [["cc", "-o", "out/build/tmp", "out/build/tmp.s"], ["/work/out/build/tmp"]] ∧
    kept.workspace.fileAt? program = some "  ret\n" ∧
    (∀ place, place ≠ program →
      kept.workspace.fileAt? place = world.workspace.fileAt? place) ∧
    (∀ place, kept.workspace.find? place = some .directory →
      world.workspace.find? place ≠ some .directory → place <+: ["work", "out", "build"]) ∧
    (build none).workspace = world.workspace := by
  intro world build kept program
  have hwords : kept.commands.map Command.words =
      [["cc", "-o", "out/build/tmp", "out/build/tmp.s"], ["/work/out/build/tmp"]] := by
    decide +kernel
  have hstarted : kept.commands ≠ world.commands := by
    intro hnone
    rw [hnone] at hwords
    cases hwords
  have hplace : (((Path.ofText "out/build").join "tmp.s").resolve world.workspace.home).parts =
      program := by
    decide +kernel
  have hkept := (@buildAndRun_confined world (some { workDir := some (.ofText "out/build") })
    "  ret\n" rfl).2 _ rfl
  have hgone := (@buildAndRun_confined world (some { workDir := none }) "  ret\n" rfl).2 _ rfl
  have hstored := hkept.stored (.ofText "out/build") rfl hstarted
  have htouched := hkept.touched (.ofText "out/build") rfl
  have hfiles := htouched.files
  rw [hplace] at hstored hfiles
  refine ⟨rfl, hwords, hstored, ?_, ?_, hgone.unchanged rfl⟩
  · intro place hother
    exact Classical.byContradiction fun hchanged ↦ hother (hfiles place hchanged)
  · intro place hafter hbefore
    exact htouched.isPrefix (by decide) hafter hbefore

end Deed

end ArithAsm
