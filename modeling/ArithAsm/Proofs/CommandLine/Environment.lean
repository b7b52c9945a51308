import ArithAsm.Proofs.CommandLine.Run
import ArithAsm.Proofs.Shell.Splitting
import ArithAsm.Proofs.Toolchain.Refusals

/-!
# What an environment makes of a run

Where both commands do their work, a run comes to its end unless the environment is in the way: by
flags that cannot be split, by a work directory that cannot be made or written, by a time limit that
the system cannot wait for or that leaves no time, or by a compiler whose output is no text.  The
name of the compiler makes no other difference.
-/

namespace ArithAsm

open Attempt

namespace Workspace

variable {workspace : Workspace} {path : Path}

/-- Whether a text can be stored does not depend on the text. -/
theorem exists_store_of_store {content : String}
    (h : ∃ after, workspace.store path content = .ok after) (other : String) :
    ∃ after, workspace.store path other = .ok after := by
  apply (workspace.exists_store_or_blocks path other).resolve_right
  rintro ⟨obstacle, hblocks⟩
  obtain ⟨after, hstored⟩ := h
  rw [hblocks.store_eq] at hstored
  cases hstored

/-- What the system says when a directory is made and a program is to be stored there. -/
def refusal? (workspace : Workspace) (directory : Path) (program : String) : Option SystemFault :=
  match workspace.ensure directory with
  | (_, some fault) => some fault
  | (made, none) =>
      match made.store (directory.join "tmp.s") program with
      | .ok _ => none
      | .error fault => some fault

section

variable {directory : Path} {program : String}

theorem refusal?_eq_some_iff {fault : SystemFault} :
    workspace.refusal? directory program = some fault ↔
      (∃ made, workspace.ensure directory = (made, some fault)) ∨
      ∃ made, workspace.ensure directory = (made, none) ∧
        made.store (directory.join "tmp.s") program = .error fault := by
  unfold refusal?
  rcases workspace.ensure directory with ⟨made, _ | refusal⟩
  · cases hstore : made.store (directory.join "tmp.s") program <;> simp [hstore]
  · simp

theorem refusal?_eq_none_iff :
    workspace.refusal? directory program = none ↔
      ∃ made, workspace.ensure directory = (made, none) ∧
        ∃ stored, made.store (directory.join "tmp.s") program = .ok stored := by
  unfold refusal?
  rcases workspace.ensure directory with ⟨made, _ | refusal⟩
  · cases hstore : made.store (directory.join "tmp.s") program <;> simp [hstore]
  · simp

end

end Workspace

namespace Deed

variable {world : World} {settings : ToolchainSettings}

theorem result_buildAndRun_of_refusal {directory : Path} {assembly : String} {fault : SystemFault}
    (hscratch : world.scratch = none) (hdirectory : settings.workDir = some directory)
    (hnull : directory.NullFree)
    (h : world.workspace.refusal? directory assembly = some fault) :
    ((buildAndRun settings assembly).run.run world).1 = .error (.system fault) := by
  unfold buildAndRun
  rw [hdirectory]
  dsimp only
  rcases Workspace.refusal?_eq_some_iff.mp h with ⟨made, hensure⟩ | ⟨made, hensure, hstore⟩
  · rw [run_bind_of_error (run_ensure_of_some hnull hensure)]
  · have hprogram : (directory.join "tmp.s").NullFree := hnull.join (by decide)
    have hmade : { world with workspace := made }.scratch = none := hscratch
    rw [run_bind_of_ok (run_ensure_of_none hnull hensure)]
    unfold buildIn assemble
    rw [Path.withSuffix?_join]
    dsimp only
    rw [run_bind_of_error (run_bind_of_error (run_store_of_error hmade hprogram hstore))]

/-- A work directory that refuses no program can be written. -/
theorem writable_of_refusal? {assembly : String} (htemporary : world.temporary.NullFree)
    (hnull : ∀ directory, settings.workDir = some directory → directory.NullFree)
    (h : settings.workDir.bind (world.workspace.refusal? · assembly) = none) :
    settings.Writable world := by
  unfold ToolchainSettings.Writable
  cases hdirectory : settings.workDir with
  | none => exact htemporary
  | some directory =>
      rw [hdirectory, Option.bind_some] at h
      obtain ⟨made, hensure, hstored⟩ := Workspace.refusal?_eq_none_iff.mp h
      refine ⟨hnull directory hdirectory, made, hensure, ?_⟩
      intro content
      exact Workspace.exists_store_of_store hstored content

end Deed

namespace ToolchainSettings

variable {environment : Environment}

/-- Flags that cannot be split end in an open quote or in a backslash. -/
def Unsplittable (environment : Environment) : Prop :=
  ∃ flags, environment.value? "EXPRCC_CFLAGS" = some flags ∧
    (flags.toList.foldl Shell.Position.next .between).fault?.isSome

theorem result_ofEnvironment_of_unsplittable (h : Unsplittable environment) :
    ∃ message, (ofEnvironment environment).result = .error (.badValue message) := by
  obtain ⟨flags, hflags, hend⟩ := h
  obtain ⟨fault, hfault⟩ := Option.isSome_iff_exists.mp hend
  refine ⟨fault.message, ?_⟩
  have herror : flagsOf environment = .error (.badValue fault.message) := by
    rw [flagsOf, hflags]
    dsimp only
    rw [Shell.split_eq_error_iff.mpr hfault]
    rfl
  unfold ofEnvironment
  rw [herror]

theorem result_ofEnvironment_of_splittable (h : ¬Unsplittable environment) :
    ∃ settings, (ofEnvironment environment).result = .ok settings := by
  have hflags : ∃ flags, flagsOf environment = .ok flags := by
    unfold flagsOf
    cases hvalue : environment.value? "EXPRCC_CFLAGS" with
    | none => exact ⟨[], rfl⟩
    | some flags =>
        dsimp only
        cases hsplit : Shell.split flags with
        | ok words => exact ⟨words, rfl⟩
        | error fault =>
            refine absurd ⟨flags, hvalue, ?_⟩ h
            rw [Shell.split_eq_error_iff.mp hsplit]
            rfl
  obtain ⟨flags, hflags⟩ := hflags
  unfold ofEnvironment
  rw [hflags]
  exact ⟨_, rfl⟩

theorem timeout_of_ofEnvironment {settings : ToolchainSettings}
    (h : (ofEnvironment environment).result = .ok settings) :
    settings.timeout = (timeoutOf environment ({} : ToolchainSettings).timeout).1 := by
  unfold ofEnvironment at h
  split at h
  · cases h
  · cases h
    rfl

end ToolchainSettings

namespace CommandLine

namespace Request

variable {request : Request} {world : World} {text : String}

theorem exitCode_respond_of_settings_error {failure : Failure} (hrun : request.run = true)
    (hmode : request.mode = .x86) (hproduct : request.product.result = .ok text)
    (hsettings : (ToolchainSettings.ofEnvironment world.environment).result = .error failure) :
    (request.respond world).1.exitCode = failure.exitCode := by
  have hnoted : (Deed.ofLogged request.product).run.run world =
      (.ok text, world.noting request.product.events) := by
    rw [Deed.run_ofLogged, hproduct]
  have hgiven := request.run_settings world
  rw [hsettings] at hgiven
  have hperform : request.perform.run.run world = (.error failure, request.worldAtBuild world) := by
    rw [perform_of_run hrun hmode, Attempt.run_bind_of_ok hnoted, Attempt.run_bind_of_error hgiven]
  obtain ⟨errors, hrespond⟩ := respond_of_run_perform hperform
  rw [hrespond]
  rfl

theorem exitCode_respond_of_run {settings : ToolchainSettings} (hrun : request.run = true)
    (hmode : request.mode = .x86) (houtput : request.output = none)
    (hproduct : request.product.result = .ok text)
    (hsettings : (ToolchainSettings.ofEnvironment world.environment).result = .ok settings) :
    (request.respond world).1.exitCode =
      exitCodeOf ((Deed.buildAndRun settings text).run.run (request.worldAtBuild world)).1 := by
  rcases hbuild : (Deed.buildAndRun settings text).run.run (request.worldAtBuild world) with
    ⟨_ | status, after⟩
  · exact exitCode_respond_of_failure hrun hmode hproduct hsettings (by rw [hbuild])
  · have hperform : request.perform.run.run world = (.ok s!"{status}\n", after) := by
      rw [run_perform_at_build hrun hmode hproduct hsettings, Attempt.run_bind_of_ok hbuild, houtput]
      rfl
    obtain ⟨errors, hrespond⟩ := respond_of_run_perform hperform
    rw [hrespond]
    rfl

end Request

/-- The exit code of a build whose commands end with zero and with a status, told by the time limit
and by what the compiler writes. -/
inductive Ended (world : World) (limit : Binary64) : Output → ExitCode → Prop where
  | unwaitable {output : Output} (h : world.CannotWait limit) :
      Ended world limit output .internalError
  | stopped {output : Output} (hwait : ¬ world.CannotWait limit) (h : world.StopsAtOnce limit) :
      Ended world limit output .toolchainError
  | garbled (reason : String) (hwait : ¬ world.CannotWait limit)
      (hkept : ¬ world.StopsAtOnce limit) : Ended world limit (.garbled reason) .internalError
  | well (errors : String) (hwait : ¬ world.CannotWait limit)
      (hkept : ¬ world.StopsAtOnce limit) : Ended world limit (.text errors) .success

/-- Each exit code has its own reasons. -/
theorem Ended.exitCode_iff {world : World} {limit : Binary64} {output : Output}
    {exitCode : ExitCode} (h : Ended world limit output exitCode) :
    (exitCode = .internalError ↔ world.CannotWait limit ∨
      ¬world.StopsAtOnce limit ∧ ∃ reason, output = .garbled reason) ∧
    exitCode ≠ .invalidArguments ∧
    (exitCode = .toolchainError ↔ ¬world.CannotWait limit ∧ world.StopsAtOnce limit) ∧
    (exitCode = .success ↔ ¬world.CannotWait limit ∧ ¬world.StopsAtOnce limit ∧
      ∀ reason, output ≠ .garbled reason) := by
  cases h with
  | unwaitable h => simp [h]
  | stopped hwait h => simp [hwait, h]
  | garbled reason hwait hkept => simp [hwait, hkept]
  | well errors hwait hkept => simp [hwait, hkept]

theorem ended_buildAndRun {world : World} {settings : ToolchainSettings} {assembly : String}
    {output other : Output} {status : Int} (hscratch : world.scratch = none)
    (hwritable : settings.Writable world) (hfirst : world.nextEnding = .exit 0 output)
    (hsecond : world.endings.tail.headD (.exit 0 "") = .exit status other) :
    Ended world settings.timeout output
      (exitCodeOf ((Deed.buildAndRun settings assembly).run.run world).1) := by
  obtain ⟨result, after, started, hrun, hconcluded, -⟩ :=
    Deed.concludes_buildAndRun hscratch hwritable assembly
  rw [hrun]
  -- Both commands have the time limit of the settings.
  let directory := settings.workDir.getD world.temporary
  let build := settings.buildCommand directory
  let run := settings.runCommand directory world.workspace.home
  by_cases hwait : world.CannotWait settings.timeout
  · obtain ⟨failure, hseen⟩ := World.outcome_of_cannotWait build hwait hfirst
    have hfailed : ∀ errors, world.outcome build ≠ .ok (.exit 0 errors) := by simp [hseen]
    obtain ⟨-, -, -, hunseen⟩ := hconcluded.of_unbuilt hfailed
    obtain rfl := hunseen failure hseen
    change Ended world settings.timeout output failure.exitCode
    rw [exitCode_of_outcome_error hseen]
    exact .unwaitable hwait
  · by_cases hstop : world.StopsAtOnce settings.timeout
    · have hseen := World.outcome_of_stopsAtOnce build hwait hstop hfirst
      have hfailed : ∀ errors, world.outcome build ≠ .ok (.exit 0 errors) := by simp [hseen]
      obtain ⟨-, hbuild, -⟩ := hconcluded.of_unbuilt hfailed
      obtain ⟨problem, errors, rfl⟩ := hbuild .timedOut hseen nofun
      exact .stopped hwait hstop
    · have hseen := World.outcome_of_kept build hwait hstop hfirst
      cases output with
      | garbled reason =>
          have hfailed : ∀ errors, world.outcome build ≠ .ok (.exit 0 errors) := by
            intro errors hexit
            cases hseen.symm.trans hexit
          obtain ⟨-, -, -, hunseen⟩ := hconcluded.of_unbuilt hfailed
          obtain rfl := hunseen _ hseen
          exact .garbled reason hwait hstop
      | text errors =>
          have hran : (world.started build).outcome run = run.reading (.exit status other) :=
            World.outcome_of_kept run hwait hstop hsecond
          obtain rfl := hconcluded.result_eq_ok_iff.mpr ⟨⟨errors, hseen⟩, "", hran⟩
          exact .well errors hwait hstop

/-- The numbers of the refusals that are laid to the arguments. -/
def argumentFaults : List Int := [1, 2, 13, 21]

theorem exitCode_system_eq (fault : SystemFault) :
    (Failure.system fault).exitCode =
      if fault.code ∈ argumentFaults then .invalidArguments else .internalError := by
  simp [Failure.exitCode, SystemFault.isArgumentFault, argumentFaults, or_assoc, or_left_comm]

/-- Where both commands do their work, the exit code of a run is told by the environment.  It is
that of an internal error just if the flags cannot be split, if the system refuses the work
directory for a reason that is not laid to the arguments, or if the ending of the compiler cannot be
seen: the system cannot wait up to the time limit, or what the compiler writes is no text. -/
theorem respond_by_environment {arguments : List String} {request : Request} {compiled : Compiled}
    {world : World} {output other : Output} {status : Int} (hscratch : world.scratch = none)
    (hintent : Intent.ofArguments world.workspace arguments = .ok (.process request))
    (hrun : request.run = true) (hmode : request.mode = .x86) (houtput : request.output = none)
    (hcompile : (Compilation.compile { entry := request.entry, remarks := request.remarks }
      Request.sourceName request.expression).result = .ok compiled)
    (hfirst : world.nextEnding = .exit 0 output)
    (hsecond : world.endings.tail.headD (.exit 0 "") = .exit status other)
    (htemporary : world.temporary.NullFree)
    (hnull : ∀ directory, world.environment.value? "EXPRCC_WORK_DIR" = some directory →
      (Path.ofText directory).NullFree) :
    let unsplittable := ToolchainSettings.Unsplittable world.environment
    let refusal? := (world.environment.value? "EXPRCC_WORK_DIR").bind fun directory ↦
      world.workspace.refusal? (.ofText directory) compiled.assembly
    let limit := (ToolchainSettings.timeoutOf world.environment ({} : ToolchainSettings).timeout).1
    let exitCode := (respond arguments world).1.exitCode
    (exitCode = .internalError ↔
      unsplittable ∨ (∃ fault, refusal? = some fault ∧ fault.code ∉ argumentFaults) ∨
      refusal? = none ∧ (world.CannotWait limit ∨
        ¬world.StopsAtOnce limit ∧ ∃ reason, output = .garbled reason)) ∧
    (exitCode = .invalidArguments ↔
      ¬unsplittable ∧ ∃ fault, refusal? = some fault ∧ fault.code ∈ argumentFaults) ∧
    (exitCode = .toolchainError ↔
      ¬unsplittable ∧ refusal? = none ∧ ¬world.CannotWait limit ∧ world.StopsAtOnce limit) ∧
    (exitCode = .success ↔
      ¬unsplittable ∧ refusal? = none ∧ ¬world.CannotWait limit ∧ ¬world.StopsAtOnce limit ∧
        ∀ reason, output ≠ .garbled reason) := by
  intro unsplittable refusal? limit exitCode
  have hproduct := request.result_product_x86 hmode hcompile
  unfold exitCode
  rw [respond_of_process hintent]
  by_cases hsplit : unsplittable
  · obtain ⟨message, hsettings⟩ := ToolchainSettings.result_ofEnvironment_of_unsplittable hsplit
    rw [Request.exitCode_respond_of_settings_error hrun hmode hproduct hsettings]
    simp [hsplit, Failure.exitCode]
  · obtain ⟨settings, hsettings⟩ := ToolchainSettings.result_ofEnvironment_of_splittable hsplit
    have hworkDir := workDir_of_ofEnvironment hsettings
    have hdirectory : ∀ directory, settings.workDir = some directory → directory.NullFree := by
      intro directory hgiven
      rw [hworkDir] at hgiven
      obtain ⟨value, hvalue, rfl⟩ := Option.map_eq_some_iff.mp hgiven
      exact hnull value hvalue
    have hrefusal : settings.workDir.bind (world.workspace.refusal? · compiled.assembly) =
        refusal? := by
      rw [hworkDir, Option.bind_map]
      rfl
    rw [Request.exitCode_respond_of_run hrun hmode houtput hproduct hsettings]
    -- What was reported before the build changes nothing for it.
    have hscratch' : (request.worldAtBuild world).scratch = none := hscratch
    cases hfault : refusal? with
    | some fault =>
        obtain ⟨directory, hgiven, hrefused⟩ := Option.bind_eq_some_iff.mp (hrefusal.trans hfault)
        rw [Deed.result_buildAndRun_of_refusal hscratch' hgiven (hdirectory directory hgiven)
          hrefused]
        dsimp only [exitCodeOf]
        rw [exitCode_system_eq]
        by_cases hargument : fault.code ∈ argumentFaults
        · simp [hsplit, hargument]
        · simp [hsplit, hargument]
    | none =>
        have hwritable : settings.Writable (request.worldAtBuild world) :=
          Deed.writable_of_refusal? htemporary hdirectory (hrefusal.trans hfault)
        have hended : Ended (request.worldAtBuild world) settings.timeout output
            (exitCodeOf ((Deed.buildAndRun settings compiled.assembly).run.run
              (request.worldAtBuild world)).1) :=
          ended_buildAndRun hscratch' hwritable hfirst hsecond
        rw [ToolchainSettings.timeout_of_ofEnvironment hsettings] at hended
        have hcannot : (request.worldAtBuild world).CannotWait limit ↔ world.CannotWait limit :=
          Iff.rfl
        have hstops : (request.worldAtBuild world).StopsAtOnce limit ↔ world.StopsAtOnce limit :=
          Iff.rfl
        obtain ⟨hinternal, hvalid, htoolchain, hsuccess⟩ := hended.exitCode_iff
        rw [hcannot, hstops] at hinternal htoolchain hsuccess
        refine ⟨?_, ?_, ?_, ?_⟩
        · rw [hinternal]
          simp [hsplit]
        · simp [hvalid]
        · rw [htoolchain]
          simp [hsplit]
        · rw [hsuccess]
          simp [hsplit]

/-- An open quote among the flags, a file in place of the work directory, a directory in place of
the program, time limits that are no time to wait, and settings that are merely odd. -/
theorem respond_by_environment_odd :
    let world : Environment → List (List String × Entry) → World := fun environment entries ↦ {
      workspace := { home := ["work"], entries }
      temporary := { anchor := .root, parts := ["tmp", "scratch"] }
      environment
      endings := [.exit 0 "", .exit 0 ""]
      longestWait := some 2147483647 }
    let exitCode : World → ExitCode := fun world ↦ (respond ["--run", "1"] world).1.exitCode
    exitCode (world [("EXPRCC_CFLAGS", "'")] []) = .internalError ∧
    exitCode (world [("EXPRCC_WORK_DIR", "f")] [(["work", "f"], .file "old")]) =
      .internalError ∧
    exitCode (world [("EXPRCC_TIMEOUT", "inf")] []) = .internalError ∧
    exitCode (world [("EXPRCC_WORK_DIR", "d")]
      [(["work", "d"], .directory), (["work", "d", "tmp.s"], .directory)]) = .invalidArguments ∧
    exitCode (world [("EXPRCC_TIMEOUT", "0")] []) = .toolchainError ∧
    exitCode (world [("EXPRCC_CC", " "), ("EXPRCC_CFLAGS", "-O 'a b'"), ("EXPRCC_WORK_DIR", "d/e"),
      ("EXPRCC_TIMEOUT", "soon")] []) = .success := by
  intro world exitCode
  have hcompile : (Compilation.compile {} Request.sourceName "1").result.toOption.map
      (fun compiled ↦ compiled.lines.length) = some 6 := by
    decide +kernel
  obtain ⟨compiled, hcompile, -⟩ := exists_ok_of_map_toOption hcompile
  have htemporary : Path.NullFree { anchor := .root, parts := ["tmp", "scratch"] } := by decide
  have answer (environment : Environment) (entries : List (List String × Entry)) :=
    @respond_by_environment ["--run", "1"] _ compiled (world environment entries) "" "" 0 rfl rfl
      rfl rfl rfl hcompile rfl rfl htemporary
  refine ⟨?_, ?_, ?_, ?_, ?_, ?_⟩
  · refine (answer _ _ ?_).1.mpr (.inl ⟨_, rfl, ?_⟩)
    · intro directory h
      cases h
    · decide
  · refine (answer _ _ ?_).1.mpr (.inr (.inl ⟨_, rfl, ?_⟩))
    · rintro directory ⟨⟩
      decide
    · decide
  · refine (answer _ _ ?_).1.mpr (.inr (.inr ⟨rfl, .inl ?_⟩))
    · intro directory h
      cases h
    · decide +kernel
  · refine (answer _ _ ?_).2.1.mpr ⟨?_, _, rfl, ?_⟩
    · rintro directory ⟨⟩
      decide
    · rintro ⟨flags, h, -⟩
      cases h
    · decide
  · refine (answer _ _ ?_).2.2.1.mpr ⟨?_, rfl, ?_⟩
    · intro directory h
      cases h
    · rintro ⟨flags, h, -⟩
      cases h
    · decide +kernel
  · refine (answer _ _ ?_).2.2.2.mpr ⟨?_, rfl, ?_, ?_, nofun⟩
    · rintro directory ⟨⟩
      decide
    · rintro ⟨flags, ⟨⟩, hend⟩
      revert hend
      decide
    · decide +kernel
    · decide +kernel

end CommandLine

end ArithAsm
