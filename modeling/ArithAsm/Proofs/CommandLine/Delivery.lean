import ArithAsm.Proofs.CommandLine.Answer

/-!
# What an answer leaves behind

A command line that fails prints nothing and leaves all files as they were, but for the program
that a run keeps in the work directory.  One that succeeds changes its output file besides, and
nothing else.
-/

namespace ArithAsm.CommandLine

/-- The place of the program that a run keeps, if the environment names a directory for it. -/
def keptPlace? (world : World) : Option (List String) :=
  (world.environment.value? "EXPRCC_WORK_DIR").map fun directory ↦
    (((Path.ofText directory).join "tmp.s").resolve world.workspace.home).parts

theorem exitCode_ne_success (failure : Failure) : failure.exitCode ≠ .success := by
  cases failure with
  | system fault => cases h : fault.isArgumentFault <;> simp [Failure.exitCode, h]
  | _ => simp [Failure.exitCode]

theorem workDir_of_ofEnvironment {environment : Environment} {settings : ToolchainSettings}
    (h : (ToolchainSettings.ofEnvironment environment).result = .ok settings) :
    settings.workDir = (environment.value? "EXPRCC_WORK_DIR").map Path.ofText := by
  unfold ToolchainSettings.ofEnvironment at h
  split at h
  · cases h
  · cases h
    rfl

namespace Request

variable {request : Request} {world after : World}

/-- A text is stored under a path, if there is one. -/
def Stores (text : String) (before after : Workspace) : Option Path → Prop
  | some path => before.store path text = .ok after
  | none => after = before

theorem perform_of_stored {path : Path} (hrun : request.run = false)
    (houtput : request.output = some path) :
    request.perform = Deed.ofLogged request.product >>= fun text ↦
      Deed.store path text >>= fun _ ↦
        Deed.report (.wrote text.length path.text) >>= fun _ ↦ pure "" := by
  obtain ⟨expression, mode, output, remarks, entry, run, verbose⟩ := request
  obtain rfl : run = false := hrun
  obtain rfl : output = some path := houtput
  rfl

theorem perform_of_run (hrun : request.run = true) (hmode : request.mode = .x86) :
    request.perform = Deed.ofLogged request.product >>= fun text ↦
      Deed.settings none >>= fun settings ↦
        Deed.buildAndRun settings text >>= fun status ↦
          (match request.output with
            | some path => Deed.store path text
            | none => pure ()) >>= fun _ ↦ pure s!"{status}\n" := by
  obtain ⟨expression, mode, output, remarks, entry, run, verbose⟩ := request
  obtain rfl : run = true := hrun
  obtain rfl : mode = .x86 := hmode
  cases output <;> rfl

theorem run_perform_of_misuse (hrun : request.run = true) (hmode : request.mode ≠ .x86) :
    ∃ failure, request.perform.run.run world = (.error failure, world) := by
  unfold perform
  rw [if_pos (by simp [hrun, hmode])]
  exact ⟨_, rfl⟩

/-- Without a run only the output file may change. -/
theorem run_perform_of_stored {path : Path} {result : Except Failure String}
    (hscratch : world.scratch = none) (hrun : request.run = false)
    (houtput : request.output = some path)
    (h : request.perform.run.run world = (result, after)) :
    (∃ failure, result = .error failure ∧ after.workspace = world.workspace) ∨
    ∃ text, request.product.result = .ok text ∧ result = .ok "" ∧
      world.workspace.store path text = .ok after.workspace := by
  rw [perform_of_stored hrun houtput] at h
  rcases Attempt.run_bind_cases h with ⟨failure, hproduct, rfl⟩ | ⟨text, noted, hproduct, hrest⟩
  · obtain ⟨-, rfl⟩ := Deed.eq_of_run_ofLogged hproduct
    exact .inl ⟨failure, rfl, rfl⟩
  · obtain ⟨htext, rfl⟩ := Deed.eq_of_run_ofLogged hproduct
    have hnoted : (world.noting request.product.events).scratch = none := hscratch
    rcases Attempt.run_bind_cases hrest with ⟨failure, hstored, rfl⟩ | ⟨_, stored, hstored, hend⟩
    · rcases Deed.run_store_outside hnoted hstored with ⟨_, -, rfl⟩ | ⟨hresult, -⟩
      · exact .inl ⟨failure, rfl, rfl⟩
      · cases hresult
    · rcases Deed.run_store_outside hnoted hstored with ⟨_, hresult, -⟩ | ⟨-, hstore, -⟩
      · cases hresult
      · cases hend
        exact .inr ⟨text, htext, rfl, hstore⟩

/-- The output file changes only after a run that comes to its end. -/
theorem run_buildAndRun_of_output {settings : ToolchainSettings} {text : String}
    {output : Option Path} {result : Except Failure String} (hscratch : world.scratch = none)
    (hsettings : settings.workDir =
      (world.environment.value? "EXPRCC_WORK_DIR").map Path.ofText)
    (h : (Deed.buildAndRun settings text >>= fun status ↦
        (match output with
          | some path => Deed.store path text
          | none => pure ()) >>= fun _ ↦ pure s!"{status}\n" : Deed String).run.run world =
      (result, after)) :
    (∃ failure, result = .error failure ∧
      world.workspace.Keeps (keptPlace? world = some ·) after.workspace) ∨
    ∃ status between, Deed.Ran settings (settings.workDir.getD world.temporary) world after status ∧
      result = .ok s!"{status}\n" ∧
      world.workspace.Keeps (keptPlace? world = some ·) between ∧
      Stores text between after.workspace output := by
  have hkeeps : world.Keeps (keptPlace? world = some ·)
      ((Deed.buildAndRun settings text).run.run world).2 := by
    refine .buildAndRun hscratch fun directory hdirectory ↦ ?_
    rw [hsettings] at hdirectory
    obtain ⟨value, hvalue, rfl⟩ := Option.map_eq_some_iff.mp hdirectory
    unfold keptPlace?
    rw [hvalue]
    rfl
  -- What the run leaves behind is the same whether or not it comes to its end.
  rcases Attempt.run_bind_cases h with ⟨failure, hbuild, rfl⟩ | ⟨status, between, hbuild, hrest⟩
  · rw [hbuild] at hkeeps
    exact .inl ⟨failure, rfl, hkeeps.workspace⟩
  · rw [hbuild] at hkeeps
    have hran := Deed.ran_of_run_buildAndRun hbuild
    cases output with
    | none =>
        cases hrest
        exact .inr ⟨status, _, hran, rfl, hkeeps.workspace, rfl⟩
    | some path =>
        have hbetween : between.scratch = none := by
          simpa [hscratch] using hkeeps.scratch
        rcases Attempt.run_bind_cases hrest with ⟨failure, hstored, rfl⟩ | ⟨_, stored, hstored, hend⟩
        · rcases Deed.run_store_outside hbetween hstored with ⟨_, -, rfl⟩ | ⟨hresult, -⟩
          · exact .inl ⟨failure, rfl, hkeeps.workspace⟩
          · cases hresult
        · rcases Deed.run_store_outside hbetween hstored with ⟨_, hresult, -⟩ | ⟨-, hstore, hcommands⟩
          · cases hresult
          · cases hend
            refine .inr ⟨status, _, ?_, rfl, hkeeps.workspace, hstore⟩
            unfold Deed.Ran at hran ⊢
            rwa [hcommands]

/-- With a run the kept program may change, and the output file where all goes well. -/
theorem run_perform_of_run {result : Except Failure String} (hscratch : world.scratch = none)
    (hrun : request.run = true) (h : request.perform.run.run world = (result, after)) :
    (∃ failure, result = .error failure ∧
      world.workspace.Keeps (keptPlace? world = some ·) after.workspace) ∨
    ∃ text settings status between, request.product.result = .ok text ∧
      (ToolchainSettings.ofEnvironment world.environment).result = .ok settings ∧
      Deed.Ran settings (settings.workDir.getD world.temporary) world after status ∧
      result = .ok s!"{status}\n" ∧
      world.workspace.Keeps (keptPlace? world = some ·) between ∧
      Stores text between after.workspace request.output := by
  by_cases hmode : request.mode = .x86
  · rw [perform_of_run hrun hmode] at h
    rcases Attempt.run_bind_cases h with ⟨failure, hproduct, rfl⟩ | ⟨text, noted, hproduct, hrest⟩
    · obtain ⟨-, rfl⟩ := Deed.eq_of_run_ofLogged hproduct
      exact .inl ⟨failure, rfl, .refl _⟩
    · obtain ⟨htext, rfl⟩ := Deed.eq_of_run_ofLogged hproduct
      rcases Attempt.run_bind_cases hrest with ⟨failure, hsettings, rfl⟩ |
        ⟨settings, noted, hsettings, hbuild⟩
      · obtain ⟨-, rfl⟩ := Deed.eq_of_run_ofLogged hsettings
        exact .inl ⟨failure, rfl, .refl _⟩
      · obtain ⟨hresult, rfl⟩ := Deed.eq_of_run_ofLogged hsettings
        have hnoted : ((world.noting request.product.events).noting
            (ToolchainSettings.ofEnvironment world.environment).events).scratch = none := hscratch
        rcases run_buildAndRun_of_output hnoted (workDir_of_ofEnvironment hresult) hbuild with
          hfailure | ⟨status, between, hran, hended, hkeeps, hstore⟩
        · exact .inl hfailure
        · exact .inr ⟨text, settings, status, between, htext, hresult, hran, hended, hkeeps, hstore⟩
  · obtain ⟨failure, hmisuse⟩ := run_perform_of_misuse hrun hmode
    rw [hmisuse] at h
    cases h
    exact .inl ⟨failure, rfl, .refl _⟩

/-- The places of the files that a request changes besides its output file. -/
def Spends (request : Request) (world : World) (place : List String) : Prop :=
  request.run = true ∧ keptPlace? world = some place

theorem keeps_of_run {before after : Workspace} (hrun : request.run = true)
    (h : before.Keeps (keptPlace? world = some ·) after) :
    before.Keeps (request.Spends world) after :=
  h.mono fun _ hkept ↦ ⟨hrun, hkept⟩

theorem respond_of_run_perform {result : Except Failure String}
    (h : request.perform.run.run world = (result, after)) :
    ∃ errors, request.respond world = ({
      exitCode := exitCodeOf result
      output := match result with
        | .ok output => output
        | .error _ => ""
      errors }, after) := by
  unfold respond
  rw [h]
  cases result <;> exact ⟨_, rfl⟩

theorem respond_of_failure (hscratch : world.scratch = none)
    (h : (request.respond world).1.exitCode ≠ .success) :
    (request.respond world).1.output = "" ∧
      world.workspace.Keeps (request.Spends world) (request.respond world).2.workspace := by
  rcases hperform : request.perform.run.run world with ⟨result, after⟩
  obtain ⟨errors, hrespond⟩ := respond_of_run_perform hperform
  rw [hrespond] at h ⊢
  cases result with
  | ok output => exact (h rfl).elim
  | error failure =>
      refine ⟨rfl, ?_⟩
      cases hrun : request.run with
      | true =>
          rcases run_perform_of_run hscratch hrun hperform with ⟨_, -, hkeeps⟩ |
            ⟨_, _, _, _, -, -, -, hresult, -⟩
          · exact keeps_of_run hrun hkeeps
          · cases hresult
      | false =>
          cases houtput : request.output with
          | none =>
              rw [perform_of_shown hrun houtput] at hperform
              rcases Attempt.run_bind_cases hperform with ⟨_, hproduct, -⟩ | ⟨_, _, -, hshown⟩
              · obtain ⟨-, rfl⟩ := Deed.eq_of_run_ofLogged hproduct
                exact .refl _
              · cases hshown
          | some path =>
              rcases run_perform_of_stored hscratch hrun houtput hperform with ⟨_, -, hsame⟩ |
                ⟨_, -, hresult, -⟩
              · change world.workspace.Keeps _ after.workspace
                rw [hsame]
                exact .refl _
              · cases hresult

theorem respond_of_success {path : Path} (hscratch : world.scratch = none)
    (houtput : request.output = some path) (h : (request.respond world).1.exitCode = .success) :
    (∃ text between, request.product.result = .ok text ∧
      world.workspace.Keeps (request.Spends world) between ∧
      between.store path text = .ok (request.respond world).2.workspace) ∧
    (request.run = false → (request.respond world).1.output = "") ∧
    (request.run = true → ∃ settings status,
      (ToolchainSettings.ofEnvironment world.environment).result = .ok settings ∧
      Deed.Ran settings (settings.workDir.getD world.temporary) world (request.respond world).2
        status ∧
      (request.respond world).1.output = s!"{status}\n") := by
  rcases hperform : request.perform.run.run world with ⟨result, after⟩
  obtain ⟨errors, hrespond⟩ := respond_of_run_perform hperform
  rw [hrespond] at h ⊢
  cases result with
  | error failure => exact (exitCode_ne_success failure h).elim
  | ok output =>
      cases hrun : request.run with
      | true =>
          rcases run_perform_of_run hscratch hrun hperform with ⟨_, hresult, -⟩ |
            ⟨text, settings, status, between, hproduct, hsettings, hran, hresult, hkeeps, hstore⟩
          · cases hresult
          · cases hresult
            rw [houtput] at hstore
            exact ⟨⟨text, between, hproduct, keeps_of_run hrun hkeeps, hstore⟩, nofun,
              fun _ ↦ ⟨settings, status, hsettings, hran, rfl⟩⟩
      | false =>
          rcases run_perform_of_stored hscratch hrun houtput hperform with ⟨_, hresult, -⟩ |
            ⟨text, hproduct, hresult, hstore⟩
          · cases hresult
          · cases hresult
            exact ⟨⟨text, world.workspace, hproduct, .refl _, hstore⟩, fun _ ↦ rfl, nofun⟩

end Request

/-- Where there is nothing to be done with an expression, nothing is done. -/
theorem respond_of_not_process {arguments : List String} {world : World}
    (h : ∀ request, Intent.ofArguments world.workspace arguments ≠ .ok (.process request)) :
    ((respond arguments world).1.exitCode ≠ .success → (respond arguments world).1.output = "") ∧
      (respond arguments world).2 = world := by
  unfold respond
  rcases hintent : Intent.ofArguments world.workspace arguments with fault | intent
  · exact ⟨fun _ ↦ rfl, rfl⟩
  · cases intent with
    | process request => exact (h request hintent).elim
    | _ => exact ⟨fun hcode ↦ (hcode rfl).elim, rfl⟩

/-- A failing command line prints nothing and leaves all files alone, but for the program that a run
keeps in the work directory.  Where an output file is asked for and all goes well, this file holds
the text, unless it is the null device, and the program's status is all that is printed. -/
theorem respond_atomic (arguments : List String) {world : World} (hscratch : world.scratch = none) :
    let response := (respond arguments world).1
    let files := (respond arguments world).2.workspace.fileAt?
    (response.exitCode ≠ .success →
      response.output = "" ∧
      ∀ place, files place ≠ world.workspace.fileAt? place →
        ∃ request, Intent.ofArguments world.workspace arguments = .ok (.process request) ∧
          request.run = true ∧ keptPlace? world = some place) ∧
    ∀ request path, Intent.ofArguments world.workspace arguments = .ok (.process request) →
      request.output = some path → response.exitCode = .success →
      let target := (path.resolve world.workspace.home).parts
      (∃ text, request.product.result = .ok text ∧
        (target ≠ Workspace.nullDevice → files target = some text)) ∧
      (∀ place, place ≠ target → files place ≠ world.workspace.fileAt? place →
        request.run = true ∧ keptPlace? world = some place) ∧
      (request.run = false → response.output = "") ∧
      (request.run = true → ∃ settings status,
        (ToolchainSettings.ofEnvironment world.environment).result = .ok settings ∧
        Deed.Ran settings (settings.workDir.getD world.temporary) world (respond arguments world).2
          status ∧
        response.output = s!"{status}\n") := by
  intro response files
  unfold response files
  by_cases hprocess : ∃ request,
      Intent.ofArguments world.workspace arguments = .ok (.process request)
  · obtain ⟨request, hintent⟩ := hprocess
    rw [respond_of_process hintent]
    refine ⟨fun h ↦ ?_, fun other path hother houtput h ↦ ?_⟩
    · obtain ⟨houtput, hkeeps⟩ := request.respond_of_failure hscratch h
      exact ⟨houtput, fun place hplace ↦ ⟨request, hintent, hkeeps.spent_of_ne hplace⟩⟩
    · cases hintent.symm.trans hother
      obtain ⟨⟨text, between, hproduct, hkeeps, hstore⟩, hprinted⟩ :=
        request.respond_of_success hscratch houtput h
      have hhome : path.resolve between.home = path.resolve world.workspace.home := by
        rw [hkeeps.home]
      have hothers := Workspace.Keeps.store hstore
      rw [hhome] at hothers
      refine ⟨⟨text, hproduct, fun hnull ↦ ?_⟩, fun place htarget hplace ↦ ?_, hprinted⟩
      · rw [← hhome] at hnull ⊢
        exact Workspace.fileAt?_of_store hnull hstore
      · exact hkeeps.spent_of_ne (hothers.files place htarget ▸ hplace)
  · have hnone : ∀ request,
        Intent.ofArguments world.workspace arguments ≠ .ok (.process request) :=
      fun request h ↦ hprocess ⟨request, h⟩
    obtain ⟨houtput, hworld⟩ := respond_of_not_process hnone
    rw [hworld]
    exact ⟨fun h ↦ ⟨houtput h, fun _ hplace ↦ (hplace rfl).elim⟩,
      fun request _ h ↦ (hnone request h).elim⟩

/-- A run with a work directory and an output file, once with a compiler that does its work and once
with one that does not. -/
theorem respond_atomic_run :
    let arguments := ["--run", "-o", "out.s", "7"]
    let world : World := {
      workspace := { home := ["work"] }
      temporary := { anchor := .root, parts := ["tmp", "scratch"] }
      environment := [("EXPRCC_WORK_DIR", "build")]
      endings := [.exit 0 "", .exit 7 ""] }
    let broken : World := { world with endings := [.exit 1 ""] }
    (world.scratch = none ∧ (respond arguments world).1.exitCode = .success ∧
      ∃ text, (respond arguments world).2.workspace.fileAt? ["work", "out.s"] = some text) ∧
    (broken.scratch = none ∧ (respond arguments broken).1.exitCode ≠ .success ∧
      (respond arguments broken).1.output = "" ∧
      ∀ place, (respond arguments broken).2.workspace.fileAt? place ≠
          broken.workspace.fileAt? place → place = ["work", "build", "tmp.s"]) := by
  intro arguments world broken
  have hgood : (respond arguments world).1.exitCode = .success := by decide +kernel
  have hbad : (respond arguments broken).1.exitCode ≠ .success := by decide +kernel
  have hkept : keptPlace? broken = some ["work", "build", "tmp.s"] := by decide +kernel
  obtain ⟨-, hsuccess⟩ := @respond_atomic arguments world rfl
  obtain ⟨hfailure, -⟩ := @respond_atomic arguments broken rfl
  obtain ⟨houtput, hfiles⟩ := hfailure hbad
  obtain ⟨⟨text, -, hstored⟩, -⟩ := hsuccess _ _ rfl rfl hgood
  refine ⟨⟨rfl, hgood, text, hstored (by decide)⟩, rfl, hbad, houtput, fun place hplace ↦ ?_⟩
  obtain ⟨request, -, -, hspent⟩ := hfiles place hplace
  exact Option.some_inj.mp (hspent.symm.trans hkept)

/-- The null device takes a program and keeps nothing of it. -/
theorem respond_to_null_device :
    let arguments := ["-o", "/dev/null", "1"]
    let world : World := {
      workspace := { home := ["work"] }
      temporary := { anchor := .root, parts := ["tmp", "scratch"] } }
    let request : Request := { expression := "1", output := some (.ofText "/dev/null") }
    Intent.ofArguments world.workspace arguments = .ok (.process request) ∧
    (respond arguments world).1.exitCode = .success ∧
    ((Path.ofText "/dev/null").resolve world.workspace.home).parts = Workspace.nullDevice ∧
    ∃ text, request.product.result = .ok text ∧
      (respond arguments world).2.workspace.fileAt? Workspace.nullDevice ≠ some text := by
  intro arguments world request
  have hgood : (respond arguments world).1.exitCode = .success := by decide +kernel
  have hlength : request.product.result.toOption.map String.length = some 66 := by decide +kernel
  obtain ⟨text, hproduct, htext⟩ := exists_ok_of_map_toOption hlength
  refine ⟨rfl, hgood, by decide, text, hproduct, ?_⟩
  have hempty : (respond arguments world).2.workspace.fileAt? Workspace.nullDevice = some "" := by
    decide +kernel
  rw [hempty]
  rintro ⟨⟩
  cases htext

end ArithAsm.CommandLine
