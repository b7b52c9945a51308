import ArithAsm.Proofs.CommandLine.Delivery
import ArithAsm.Proofs.Toolchain.Endings

/-!
# Answers to runs

The exit code of a command line that builds and runs a program, told by how the two commands end.
-/

namespace ArithAsm.CommandLine

namespace Request

variable {request : Request} {world : World} {settings : ToolchainSettings} {compiled : Compiled}

theorem result_product_x86 (hmode : request.mode = .x86)
    (h : (Compilation.compile { entry := request.entry, remarks := request.remarks } sourceName
      request.expression).result = .ok compiled) :
    request.product.result = .ok compiled.assembly := by
  rw [product, hmode]
  exact Logged.result_andThen_of_ok h _

/-- The world in which the program of a request is built. -/
def worldAtBuild (request : Request) (world : World) : World :=
  (world.noting request.product.events).noting
    (ToolchainSettings.ofEnvironment world.environment).events

theorem run_settings (request : Request) (world : World) :
    (Deed.settings none).run.run (world.noting request.product.events) =
      ((ToolchainSettings.ofEnvironment world.environment).result, request.worldAtBuild world) :=
  Deed.run_ofLogged (ToolchainSettings.ofEnvironment world.environment) _

/-- Before a program is built, its text and the settings are made out. -/
theorem run_perform_at_build {text : String} (hrun : request.run = true)
    (hmode : request.mode = .x86) (hproduct : request.product.result = .ok text)
    (hsettings : (ToolchainSettings.ofEnvironment world.environment).result = .ok settings) :
    request.perform.run.run world = (Deed.buildAndRun settings text >>= fun status ↦
      (match request.output with
        | some path => Deed.store path text
        | none => pure ()) >>= fun _ ↦ pure s!"{status}\n" : Deed String).run.run
      (request.worldAtBuild world) := by
  have hnoted : (Deed.ofLogged request.product).run.run world =
      (.ok text, world.noting request.product.events) := by
    rw [Deed.run_ofLogged, hproduct]
  have hgiven := request.run_settings world
  rw [hsettings] at hgiven
  rw [perform_of_run hrun hmode]
  exact (Attempt.run_bind_of_ok hnoted).trans (Attempt.run_bind_of_ok hgiven)

/-- A request to run a program fails where the building or the running of it fails. -/
theorem exitCode_respond_of_failure {failure : Failure} {text : String} (hrun : request.run = true)
    (hmode : request.mode = .x86) (hproduct : request.product.result = .ok text)
    (hsettings : (ToolchainSettings.ofEnvironment world.environment).result = .ok settings)
    (h : ((Deed.buildAndRun settings text).run.run (request.worldAtBuild world)).1 =
      .error failure) :
    (request.respond world).1.exitCode = failure.exitCode := by
  rcases hbuild : (Deed.buildAndRun settings text).run.run (request.worldAtBuild world) with
    ⟨result, after⟩
  rw [hbuild] at h
  obtain rfl : result = .error failure := h
  have hperform : request.perform.run.run world = (.error failure, after) := by
    rw [run_perform_at_build hrun hmode hproduct hsettings, Attempt.run_bind_of_error hbuild]
  obtain ⟨errors, hrespond⟩ := respond_of_run_perform hperform
  rw [hrespond]
  rfl

/-- A request to run a program exits as the build and the run of it conclude. -/
theorem exists_concluded {text : String} (hscratch : world.scratch = none)
    (hwritable : settings.Writable world) (hrun : request.run = true)
    (hmode : request.mode = .x86) (hproduct : request.product.result = .ok text)
    (hsettings : (ToolchainSettings.ofEnvironment world.environment).result = .ok settings) :
    let directory := settings.workDir.getD world.temporary
    let build := settings.buildCommand directory
    let run := settings.runCommand directory world.workspace.home
    ∃ result started, Deed.Concluded build run (directory.join Deed.executableName)
        (world.outcome build) ((world.started build).outcome run) result started ∧
      ∀ failure, result = .error failure →
        (request.respond world).1.exitCode = failure.exitCode := by
  intro directory build run
  -- What was reported before the build changes nothing for it.
  have hscratch' : (request.worldAtBuild world).scratch = none := hscratch
  have hwritable' : settings.Writable (request.worldAtBuild world) := hwritable
  obtain ⟨result, after, started, hbuild, hconcluded, -⟩ :=
    Deed.concludes_buildAndRun hscratch' hwritable' text
  refine ⟨result, started, hconcluded, ?_⟩
  rintro failure rfl
  apply exitCode_respond_of_failure hrun hmode hproduct hsettings
  rw [hbuild]

end Request

theorem exitCode_system (fault : SystemFault) (hcode : fault.code ≠ 2) :
    (Failure.system fault).exitCode =
      if fault.code = 1 ∨ fault.code = 13 ∨ fault.code = 21 then .invalidArguments
      else .internalError := by
  simp [Failure.exitCode, SystemFault.isArgumentFault, hcode, or_assoc]

theorem exitCode_of_outcome_error {world : World} {command : Command} {failure : Failure}
    (h : world.outcome command = .error failure) : failure.exitCode = .internalError := by
  obtain ⟨message, rfl | rfl⟩ := Command.exists_of_outcome_error h
  · rfl
  · rfl

/-- A build and a run come to the status that the program ends with just if the compiler has
ended with zero and the program has ended.  Otherwise the failure carries the words of the last
command that was started, and a command line exits with the code for such failures, unless the
compiler is barred: the refusal then is the failure, and it decides on the exit code.  What keeps
an ending from being seen is the failure, too. -/
theorem respond_by_endings {world : World} (hscratch : world.scratch = none)
    {settings : ToolchainSettings} (hwritable : settings.Writable world) :
    let directory := settings.workDir.getD world.temporary
    let build := settings.buildCommand directory
    let run := settings.runCommand directory world.workspace.home
    let first := world.outcome build
    let second := (world.started build).outcome run
    (∀ assembly,
      let outcome := (Deed.buildAndRun settings assembly).run.run world
      (∀ status, outcome.1 = .ok status ↔
        (∃ errors, first = .ok (.exit 0 errors)) ∧ ∃ errors, second = .ok (.exit status errors)) ∧
      ((∀ errors, first ≠ .ok (.exit 0 errors)) →
        outcome.2.commands = world.commands ++ [build] ∧
        (∀ ending, first = .ok ending → ¬ ending.IsBarred → ∃ problem output,
          outcome.1 = .error (.toolchain problem build.words output)) ∧
        (∀ code reason, first = .ok (.refused code reason) → code ≠ 2 →
          outcome.1 = .error (.system ⟨code, reason, some settings.compiler⟩)) ∧
        ∀ failure, first = .error failure → outcome.1 = .error failure) ∧
      ((∃ errors, first = .ok (.exit 0 errors)) →
        outcome.2.commands = world.commands ++ [build, run] ∧
        (∀ ending, second = .ok ending → (∀ status errors, ending ≠ .exit status errors) →
          ∃ problem, outcome.1 = .error (.toolchain problem run.words "")) ∧
        ∀ failure, second = .error failure → outcome.1 = .error failure)) ∧
    ∀ arguments request compiled,
      Intent.ofArguments world.workspace arguments = .ok (.process request) →
      request.run = true → request.mode = .x86 →
      (Compilation.compile { entry := request.entry, remarks := request.remarks }
        Request.sourceName request.expression).result = .ok compiled →
      (ToolchainSettings.ofEnvironment world.environment).result = .ok settings →
      let exitCode := (respond arguments world).1.exitCode
      ((∀ errors, first ≠ .ok (.exit 0 errors)) →
        (∀ ending, first = .ok ending → ¬ ending.IsBarred → exitCode = .toolchainError) ∧
        (∀ code reason, first = .ok (.refused code reason) → code ≠ 2 →
          exitCode = if code = 1 ∨ code = 13 ∨ code = 21 then .invalidArguments
            else .internalError) ∧
        ∀ failure, first = .error failure → exitCode = .internalError) ∧
      ((∃ errors, first = .ok (.exit 0 errors)) →
        (∀ ending, second = .ok ending → (∀ status errors, ending ≠ .exit status errors) →
          exitCode = .toolchainError) ∧
        ∀ failure, second = .error failure → exitCode = .internalError) := by
  intro directory build run first second
  refine ⟨fun assembly ↦ ?_, ?_⟩
  · obtain ⟨result, after, started, hrun, hconcluded, hcommands⟩ :=
      Deed.concludes_buildAndRun hscratch hwritable assembly
    rw [hrun]
    refine ⟨fun status ↦ hconcluded.result_eq_ok_iff, fun hfirst ↦ ?_, fun hfirst ↦ ?_⟩
    · obtain ⟨rfl, hresult⟩ := hconcluded.of_unbuilt hfirst
      exact ⟨hcommands, hresult⟩
    · obtain ⟨rfl, hresult⟩ := hconcluded.of_built hfirst
      exact ⟨hcommands, hresult⟩
  · intro arguments request compiled hintent hrun hmode hcompile hsettings exitCode
    obtain ⟨result, started, hconcluded, hexit⟩ := Request.exists_concluded hscratch hwritable hrun
      hmode (request.result_product_x86 hmode hcompile) hsettings
    rw [← respond_of_process hintent] at hexit
    refine ⟨fun hfirst ↦ ?_, fun hfirst ↦ ?_⟩
    · obtain ⟨-, hfailed, hbarred, hunseen⟩ := hconcluded.of_unbuilt hfirst
      refine ⟨?_, ?_, ?_⟩
      · intro ending hending hnot
        obtain ⟨problem, output, rfl⟩ := hfailed ending hending hnot
        exact hexit _ rfl
      · intro code reason hending hcode
        exact (hexit _ (hbarred code reason hending hcode)).trans (exitCode_system _ hcode)
      · intro failure hfailure
        exact (hexit _ (hunseen failure hfailure)).trans (exitCode_of_outcome_error hfailure)
    · obtain ⟨-, hfailed, hunseen⟩ := hconcluded.of_built hfirst
      constructor
      · intro ending hending hsecond
        obtain ⟨problem, rfl⟩ := hfailed ending hending hsecond
        exact hexit _ rfl
      · intro failure hfailure
        exact (hexit _ (hunseen failure hfailure)).trans (exitCode_of_outcome_error hfailure)

/-- A compiler that may not be started, one whose program is stopped at the time limit, and one
that does its work. -/
theorem respond_by_endings_barred :
    let world : List (Ending Output) → World := fun endings ↦ {
      workspace := { home := ["work"] }
      temporary := { anchor := .root, parts := ["tmp", "scratch"] }
      environment := [("EXPRCC_WORK_DIR", "build")]
      endings }
    let settings : ToolchainSettings := { workDir := some (Path.ofText "build") }
    let barred := world [.refused 13 "Permission denied"]
    let stopped := world [.exit 0 "", .timedOut]
    let good := world [.exit 0 "", .exit 7 ""]
    (∀ endings, (world endings).scratch = none ∧ settings.Writable (world endings)) ∧
    ((Deed.buildAndRun settings "  ret\n").run.run barred).1 =
      .error (.system ⟨13, "Permission denied", some "cc"⟩) ∧
    (respond ["--run", "7"] barred).1.exitCode = .invalidArguments ∧
    (respond ["--run", "7"] stopped).1.exitCode = .toolchainError ∧
    ((Deed.buildAndRun settings "  ret\n").run.run good).1 = .ok 7 := by
  intro world settings barred stopped good
  have hwritable : ∀ endings, settings.Writable (world endings) := by
    intro endings
    refine ⟨by decide, _, rfl, fun content ↦ ⟨_, rfl⟩⟩
  have hcompile : (Compilation.compile {} Request.sourceName "7").result.toOption.map
      (fun compiled ↦ compiled.lines.length) = some 6 := by decide +kernel
  obtain ⟨compiled, hcompile, -⟩ := exists_ok_of_map_toOption hcompile
  have hsettings : (ToolchainSettings.ofEnvironment [("EXPRCC_WORK_DIR", "build")]).result =
    .ok settings := rfl
  have hrefused : ∀ command, barred.outcome command = .ok (.refused 13 "Permission denied") :=
    fun _ ↦ rfl
  have hunbuilt : ∀ command errors, barred.outcome command ≠ .ok (.exit 0 errors) := by
    intro command errors h
    rw [hrefused] at h
    cases h
  obtain ⟨hbuild, hanswer⟩ := @respond_by_endings barred rfl settings (hwritable _)
  obtain ⟨-, hstopped⟩ := @respond_by_endings stopped rfl settings (hwritable _)
  obtain ⟨hgood, -⟩ := @respond_by_endings good rfl settings (hwritable _)
  refine ⟨fun endings ↦ ⟨rfl, hwritable endings⟩, ?_, ?_, ?_, ?_⟩
  · obtain ⟨-, hfailed, -⟩ := hbuild "  ret\n"
    exact (hfailed (hunbuilt _)).2.2.1 13 _ (hrefused _) (by decide)
  · obtain ⟨hfailed, -⟩ := hanswer ["--run", "7"] _ compiled rfl rfl rfl hcompile hsettings
    exact (hfailed (hunbuilt _)).2.1 13 _ (hrefused _) (by decide)
  · obtain ⟨-, hended⟩ := hstopped ["--run", "7"] _ compiled rfl rfl rfl hcompile hsettings
    exact (hended ⟨"", rfl⟩).1 .timedOut rfl nofun
  · exact ((hgood "  ret\n").1 7).mpr ⟨⟨"", rfl⟩, "", rfl⟩

end ArithAsm.CommandLine
