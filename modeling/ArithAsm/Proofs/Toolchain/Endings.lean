import ArithAsm.Proofs.Text.Unescaped
import ArithAsm.Proofs.Toolchain.Deeds

/-!
# How a build ends

Once its program is stored, a build starts the compiler, and the program if the compiler has done
its work.  What becomes of it is told by what is seen of these commands.  A failure names the
command that has failed, but for two cases: where the compiler is refused by the operating system
for another reason than that it is missing, the refusal itself is the failure, and where the ending
of a command cannot be seen, what is in the way.
-/

namespace ArithAsm

open Attempt

namespace Path

/-- No name in the path has a null character. -/
def NullFree (path : Path) : Prop :=
  ∀ name ∈ path.parts, '\x00' ∉ name.toList

instance : DecidablePred NullFree :=
  fun path ↦ inferInstanceAs (Decidable (∀ name ∈ path.parts, _))

variable {path : Path}

theorem NullFree.join (h : path.NullFree) {name : String} (hname : '\x00' ∉ name.toList) :
    (path.join name).NullFree :=
  List.forall_mem_append.mpr ⟨h, List.forall_mem_singleton.mpr hname⟩

theorem NullFree.notMem_text (h : path.NullFree) : '\x00' ∉ path.text.toList := by
  obtain ⟨anchor, parts⟩ := path
  unfold text
  split
  · decide
  · rename_i hpath
    have hanchor : '\x00' ∉ anchor.text.toList := by cases anchor <;> decide
    have hparts : '\x00' ∉ ("/".intercalate parts).toList :=
      Text.notMem_intercalate (by decide) h
    rw [String.toList_append, List.mem_append, not_or]
    exact ⟨hanchor, hparts⟩

theorem text_join (path : Path) (name : String) :
    (path.join name).text = path.anchor.text ++ "/".intercalate (path.parts ++ [name]) := by
  unfold text join
  split
  · rename_i hparts
    simp at hparts
  · rfl

/-- The names in a directory are spelled with the same text before them. -/
theorem exists_text_join (path : Path) :
    ∃ front, ∀ name, (path.join name).text = front ++ name := by
  by_cases hparts : path.parts = []
  · refine ⟨path.anchor.text, fun name ↦ ?_⟩
    rw [text_join, hparts, List.nil_append, String.intercalate_singleton]
  · refine ⟨path.anchor.text ++ ("/".intercalate path.parts ++ "/"), fun name ↦ ?_⟩
    rw [text_join, String.intercalate_append_of_ne_nil hparts (List.cons_ne_nil _ _),
      String.intercalate_singleton, ← String.append_assoc]

theorem text_join_inj {name other : String} :
    (path.join name).text = (path.join other).text ↔ name = other := by
  obtain ⟨front, htext⟩ := path.exists_text_join
  rw [htext, htext, String.append_right_inj]

end Path

namespace ToolchainSettings

/-- The command that makes an executable from a program. -/
def compileCommand (settings : ToolchainSettings) (executable program : Path) : Command :=
  ⟨settings.command executable program, settings.timeout, true⟩

/-- The command that makes an executable in a directory. -/
def buildCommand (settings : ToolchainSettings) (directory : Path) : Command :=
  ⟨settings.command (directory.join Deed.executableName) (directory.join "tmp.s"),
    settings.timeout, true⟩

/-- The command that runs it, by its full path. -/
def runCommand (settings : ToolchainSettings) (directory : Path) (home : List String) : Command :=
  ⟨[((directory.join Deed.executableName).resolve home).text], settings.timeout, false⟩

/-- The build directory can be made, and a program can be stored in it. -/
def Writable (settings : ToolchainSettings) (world : World) : Prop :=
  match settings.workDir with
  | some directory =>
      directory.NullFree ∧ ∃ made, world.workspace.ensure directory = (made, none) ∧
        ∀ content, ∃ stored, made.store (directory.join "tmp.s") content = .ok stored
  | none => world.temporary.NullFree

end ToolchainSettings

/-- The ending of a compiler that is there but cannot be started. -/
def Ending.IsBarred (ending : Ending String) : Prop :=
  ∃ code reason, ending = .refused code reason ∧ code ≠ 2

theorem World.outcome_eq {before after : World} (hendings : after.endings = before.endings)
    (hlongest : after.longestWait = before.longestWait) (command : Command) :
    after.outcome command = before.outcome command := by
  unfold World.outcome World.nextEnding
  rw [hendings, hlongest]

namespace Deed

variable {world stored : World} {assembly : String} {directory : Path}

theorem run_checkPath_of_notMem {path : Path} (h : '\x00' ∉ path.text.toList) (world : World) :
    (checkPath path).run.run world = (.ok (), world) := by
  have hnull : ¬ path.text.toList.contains '\x00' = true := by
    rw [List.contains_iff_mem]
    exact h
  unfold checkPath
  rw [if_neg hnull]
  rfl

theorem run_checkPath {path : Path} (h : path.NullFree) (world : World) :
    (checkPath path).run.run world = (.ok (), world) :=
  run_checkPath_of_notMem h.notMem_text world

theorem notMem_text_of_run_store_ok {path : Path} {content : String}
    (h : (store path content).run.run world = (.ok (), stored)) : '\x00' ∉ path.text.toList := by
  intro hnull
  unfold store at h
  obtain ⟨_, between, hcheck, -⟩ := exists_of_run_bind h
  unfold checkPath at hcheck
  rw [if_pos (List.contains_iff_mem.mpr hnull)] at hcheck
  cases hcheck

theorem run_store_of_ok {path : Path} {content : String} {workspace : Workspace}
    (hscratch : world.scratch = none) (hnull : path.NullFree)
    (h : world.workspace.store path content = .ok workspace) :
    (store path content).run.run world = (.ok (), { world with workspace }) := by
  unfold store
  rw [run_bind_of_ok (run_checkPath hnull world), run_bind_of_ok (run_get _), hscratch]
  dsimp only
  rw [h]
  rfl

theorem run_store_of_error {path : Path} {content : String} {fault : SystemFault}
    (hscratch : world.scratch = none) (hnull : path.NullFree)
    (h : world.workspace.store path content = .error fault) :
    (store path content).run.run world = (.error (.system fault), world) := by
  unfold store
  rw [run_bind_of_ok (run_checkPath hnull world), run_bind_of_ok (run_get _), hscratch]
  dsimp only
  rw [h]
  rfl

/-- A program can be stored in a new temporary directory. -/
theorem exists_run_store_scratch (hnull : world.temporary.NullFree) (content : String) :
    ∃ stored, (store (world.temporary.join "tmp.s") content).run.run
      { world with scratch := some {} } = (.ok (), stored) := by
  unfold store
  rw [run_bind_of_ok (run_checkPath (hnull.join (by decide)) _), run_bind_of_ok (run_get _)]
  dsimp only
  rw [Path.below?_join]
  exact ⟨_, rfl⟩

theorem run_ensure_of_none {path : Path} {workspace : Workspace} (hnull : path.NullFree)
    (h : world.workspace.ensure path = (workspace, none)) :
    (ensure path).run.run world = (.ok (), { world with workspace }) := by
  unfold ensure
  rw [run_bind_of_ok (run_checkPath hnull world), run_bind_of_ok (run_get _), h]
  rfl

theorem run_ensure_of_some {path : Path} {workspace : Workspace} {fault : SystemFault}
    (hnull : path.NullFree) (h : world.workspace.ensure path = (workspace, some fault)) :
    (ensure path).run.run world = (.error (.system fault), { world with workspace }) := by
  unfold ensure
  rw [run_bind_of_ok (run_checkPath hnull world), run_bind_of_ok (run_get _), h]
  rfl

/-! ## The two commands -/

theorem run_report (event : Event) (world : World) :
    (report event).run.run world = (.ok (), world.noting [event]) := rfl

/-- What becomes of a call of the compiler, told by what is seen of it. -/
inductive Assembled (build : Command) (executable : Path) :
    Except Failure (Ending String) → Except Failure Path → Prop where
  | built (errors : String) : Assembled build executable (.ok (.exit 0 errors)) (.ok executable)
  | failed {ending : Ending String} (problem output : String)
      (hexit : ∀ errors, ending ≠ .exit 0 errors) (hbarred : ¬ ending.IsBarred) :
      Assembled build executable (.ok ending) (.error (.toolchain problem build.words output))
  | barred {code : Int} (reason : String) (hcode : code ≠ 2) :
      Assembled build executable (.ok (.refused code reason))
        (.error (.system ⟨code, reason, build.words.head?⟩))
  | unseen (failure : Failure) : Assembled build executable (.error failure) (.error failure)

theorem run_assemble_of_error (settings : ToolchainSettings) {executable program : Path}
    {failure : Failure} (hprogram : executable.withSuffix? assemblySuffix = some program)
    (hstore : (store program assembly).run.run world = (.error failure, stored)) :
    (assemble settings assembly executable).run.run world = (.error failure, stored) := by
  unfold assemble
  rw [hprogram]
  exact run_bind_of_error hstore

/-- Once its program is stored, an executable is made from it. -/
theorem run_assemble_of_ok (settings : ToolchainSettings) {executable program : Path}
    (hprogram : executable.withSuffix? assemblySuffix = some program)
    (hstore : (store program assembly).run.run world = (.ok (), stored)) :
    (assemble settings assembly executable).run.run world =
      (link settings executable program).run.run stored := by
  unfold assemble
  rw [hprogram]
  exact run_bind_of_ok hstore

theorem run_finishLink (settings : ToolchainSettings) (executable program : Path)
    (ending : Ending String) (world : World) :
    ∃ result, (finishLink settings executable program ending).run.run world = (result, world) ∧
      Assembled (settings.compileCommand executable program) executable (.ok ending) result := by
  unfold finishLink
  cases ending with
  | exit status errors =>
      dsimp only
      split
      · next hstatus =>
          subst hstatus
          exact ⟨_, rfl, .built errors⟩
      · next hstatus =>
          refine ⟨_, rfl, ?_⟩
          refine .failed _ errors ?_ ?_
          · rintro other ⟨⟩
            exact hstatus rfl
          · rintro ⟨code, reason, h, -⟩
            cases h
  | timedOut => exact ⟨_, rfl, .failed _ "" nofun nofun⟩
  | refused code reason =>
      dsimp only
      split
      · next hcode =>
          refine ⟨_, rfl, ?_⟩
          refine .failed _ "" ?_ ?_
          · rintro errors ⟨⟩
          · rintro ⟨other, text, ⟨⟩, hother⟩
            exact hother hcode
      · next hcode => exact ⟨_, rfl, .barred reason hcode⟩

/-- An executable is made by a call of the compiler, whose ending tells what comes of it. -/
theorem run_link_eq (settings : ToolchainSettings) (executable program : Path) (world : World) :
    (link settings executable program).run.run world =
      (start (settings.compileCommand executable program) >>=
        finishLink settings executable program).run.run
          (world.noting [.running (settings.command executable program)]) := by
  unfold link
  exact run_bind_of_ok (run_report _ world)

theorem run_link (settings : ToolchainSettings) (executable program : Path) (world : World) :
    ∃ result, (link settings executable program).run.run world =
        (result, (world.noting [.running (settings.command executable program)]).started
          (settings.compileCommand executable program)) ∧
      Assembled (settings.compileCommand executable program) executable
        (world.outcome (settings.compileCommand executable program)) result := by
  let ready := world.noting [.running (settings.command executable program)]
  have hstart := run_start (settings.compileCommand executable program) ready
  have houtcome : ready.outcome (settings.compileCommand executable program) =
      world.outcome (settings.compileCommand executable program) := rfl
  rw [run_link_eq]
  rw [houtcome] at hstart
  cases hseen : world.outcome (settings.compileCommand executable program) with
  | error failure =>
      rw [hseen] at hstart
      exact ⟨_, run_bind_of_error hstart, .unseen failure⟩
  | ok ending =>
      rw [hseen] at hstart
      obtain ⟨result, hfinish, hassembled⟩ := run_finishLink settings executable program ending
        (ready.started (settings.compileCommand executable program))
      exact ⟨result, (run_bind_of_ok hstart).trans hfinish, hassembled⟩

section

variable {build : Command} {executable path : Path} {seen : Except Failure (Ending String)}

theorem Assembled.of_ok (h : Assembled build executable seen (.ok path)) :
    path = executable ∧ ∃ errors, seen = .ok (.exit 0 errors) := by
  cases h with
  | built errors => exact ⟨rfl, errors, rfl⟩

theorem Assembled.of_error {failure : Failure}
    (h : Assembled build executable seen (.error failure)) :
    (∀ errors, seen ≠ .ok (.exit 0 errors)) ∧
    (∀ ending, seen = .ok ending → ¬ ending.IsBarred →
      ∃ problem output, failure = .toolchain problem build.words output) ∧
    (∀ code reason, seen = .ok (.refused code reason) → code ≠ 2 →
      failure = .system ⟨code, reason, build.words.head?⟩) ∧
    ∀ fault, seen = .error fault → failure = fault := by
  cases h with
  | failed problem output hexit hbarred =>
      refine ⟨?_, fun _ _ _ ↦ ⟨problem, output, rfl⟩, ?_, ?_⟩
      · rintro errors ⟨⟩
        exact hexit errors rfl
      · rintro code reason ⟨⟩ hcode
        exact absurd ⟨code, reason, rfl, hcode⟩ hbarred
      · intro fault hfault
        cases hfault
  | @barred code reason hcode =>
      refine ⟨?_, ?_, ?_, ?_⟩
      · intro errors hexit
        cases hexit
      · rintro _ ⟨⟩ hbarred
        exact absurd ⟨code, reason, rfl, hcode⟩ hbarred
      · rintro _ _ ⟨⟩ -
        rfl
      · intro fault hfault
        cases hfault
  | unseen =>
      refine ⟨?_, ?_, ?_, ?_⟩
      · intro errors hexit
        cases hexit
      · intro ending hending
        cases hending
      · intro code reason hrefused
        cases hrefused
      · rintro fault ⟨⟩
        rfl

end

/-- What becomes of a run, told by what is seen of it. -/
inductive Executed (run : Command) :
    Except Failure (Ending String) → Except Failure Int → Prop where
  | ended (status : Int) (errors : String) : Executed run (.ok (.exit status errors)) (.ok status)
  | failed {ending : Ending String} (problem : String)
      (hexit : ∀ status errors, ending ≠ .exit status errors) :
      Executed run (.ok ending) (.error (.toolchain problem run.words ""))
  | unseen (failure : Failure) : Executed run (.error failure) (.error failure)

section

variable {run : Command} {seen : Except Failure (Ending String)} {result : Except Failure Int}

theorem Executed.result_eq_ok_iff (h : Executed run seen result) {status : Int} :
    result = .ok status ↔ ∃ errors, seen = .ok (.exit status errors) := by
  constructor
  · rintro rfl
    cases h with
    | ended status errors => exact ⟨errors, rfl⟩
  · rintro ⟨errors, rfl⟩
    cases h with
    | ended status errors => rfl
    | failed problem hexit => exact absurd rfl (hexit status errors)

theorem Executed.of_not_exit (h : Executed run seen result) {ending : Ending String}
    (hseen : seen = .ok ending) (hexit : ∀ status errors, ending ≠ .exit status errors) :
    ∃ problem, result = .error (.toolchain problem run.words "") := by
  subst hseen
  cases h with
  | ended status errors => exact absurd rfl (hexit status errors)
  | failed problem => exact ⟨problem, rfl⟩

theorem Executed.of_error (h : Executed run seen result) {failure : Failure}
    (hseen : seen = .error failure) : result = .error failure := by
  subst hseen
  cases h with
  | unseen => rfl

end

/-- The spelling of the executable is the beginning of that of its program. -/
theorem notMem_text_executable {c : Char} (h : c ∉ (directory.join "tmp.s").text.toList) :
    c ∉ (directory.join executableName).text.toList := by
  obtain ⟨front, htext⟩ := directory.exists_text_join
  have hspelling : (directory.join "tmp.s").text =
      (directory.join executableName).text ++ assemblySuffix := by
    rw [htext, htext, String.append_assoc]
    rfl
  rw [hspelling, String.toList_append, List.mem_append, not_or] at h
  exact h.1

theorem run_execute (settings : ToolchainSettings) (name : String)
    (hnull : '\x00' ∉ (directory.join executableName).text.toList) (world : World) :
    ∃ result after,
      (execute settings name (directory.join executableName)).run.run world = (result, after) ∧
      Executed (settings.runCommand directory world.workspace.home)
        (world.outcome (settings.runCommand directory world.workspace.home)) result ∧
      after.commands =
        world.commands ++ [settings.runCommand directory world.workspace.home] ∧
      after.workspace = world.workspace := by
  have hstart : (start ⟨[((directory.join executableName).resolve world.workspace.home).text],
      settings.timeout, false⟩).run.run world =
      (world.outcome (settings.runCommand directory world.workspace.home), _) := run_start _ _
  unfold execute
  rw [run_bind_of_ok (run_checkPath_of_notMem hnull world), run_bind_of_ok (run_get _)]
  dsimp only
  cases houtcome : world.outcome (settings.runCommand directory world.workspace.home) with
  | error failure =>
      rw [houtcome] at hstart
      exact ⟨_, _, run_bind_of_error hstart, .unseen failure, rfl, rfl⟩
  | ok ending =>
      rw [houtcome] at hstart
      rw [run_bind_of_ok hstart]
      cases ending with
      | exit status errors =>
          rw [run_bind_of_ok (run_report _ _)]
          exact ⟨_, _, rfl, .ended status errors, rfl, rfl⟩
      | timedOut => exact ⟨_, _, rfl, .failed _ nofun, rfl, rfl⟩
      | refused code reason => exact ⟨_, _, rfl, .failed _ nofun, rfl, rfl⟩

/-! ## A whole build -/

/-- What becomes of a build, told by what is seen of its two commands, and which of them it
starts. -/
inductive Concluded (build run : Command) (executable : Path)
    (first second : Except Failure (Ending String)) :
    Except Failure Int → List Command → Prop where
  | unbuilt {failure : Failure}
      (hbuild : Assembled build executable first (.error failure)) :
      Concluded build run executable first second (.error failure) [build]
  | built {path : Path} {result : Except Failure Int}
      (hbuild : Assembled build executable first (.ok path))
      (hrun : Executed run second result) :
      Concluded build run executable first second result [build, run]

namespace Concluded

variable {build run : Command} {executable : Path}
  {first second : Except Failure (Ending String)} {result : Except Failure Int}
  {started : List Command}

theorem result_eq_ok_iff
    (h : Concluded build run executable first second result started) {status : Int} :
    result = .ok status ↔
      (∃ errors, first = .ok (.exit 0 errors)) ∧ ∃ errors, second = .ok (.exit status errors) := by
  cases h with
  | unbuilt hbuild =>
      refine iff_of_false nofun ?_
      rintro ⟨⟨errors, hfirst⟩, -⟩
      exact hbuild.of_error.1 errors hfirst
  | built hbuild hrun =>
      rw [hrun.result_eq_ok_iff]
      exact (and_iff_right hbuild.of_ok.2).symm

theorem of_unbuilt (h : Concluded build run executable first second result started)
    (hfirst : ∀ errors, first ≠ .ok (.exit 0 errors)) :
    started = [build] ∧
    (∀ ending, first = .ok ending → ¬ ending.IsBarred → ∃ problem output,
      result = .error (.toolchain problem build.words output)) ∧
    (∀ code reason, first = .ok (.refused code reason) → code ≠ 2 →
      result = .error (.system ⟨code, reason, build.words.head?⟩)) ∧
    ∀ failure, first = .error failure → result = .error failure := by
  cases h with
  | unbuilt hbuild =>
      obtain ⟨-, hfailed, hbarred, hunseen⟩ := hbuild.of_error
      refine ⟨rfl, ?_, ?_, ?_⟩
      · intro ending hending hnot
        obtain ⟨problem, output, rfl⟩ := hfailed ending hending hnot
        exact ⟨problem, output, rfl⟩
      · intro code reason hending hcode
        rw [hbarred code reason hending hcode]
      · intro failure hfailure
        rw [hunseen failure hfailure]
  | built hbuild hrun =>
      obtain ⟨-, errors, hzero⟩ := hbuild.of_ok
      exact absurd hzero (hfirst errors)

theorem of_built (h : Concluded build run executable first second result started)
    (hfirst : ∃ errors, first = .ok (.exit 0 errors)) :
    started = [build, run] ∧
    (∀ ending, second = .ok ending → (∀ status errors, ending ≠ .exit status errors) →
      ∃ problem, result = .error (.toolchain problem run.words "")) ∧
    ∀ failure, second = .error failure → result = .error failure := by
  cases h with
  | unbuilt hbuild =>
      obtain ⟨errors, hzero⟩ := hfirst
      exact absurd hzero (hbuild.of_error.1 errors)
  | built hbuild hrun =>
      exact ⟨rfl, fun _ ↦ hrun.of_not_exit, fun _ ↦ hrun.of_error⟩

end Concluded

/-- Once its program is stored, a build goes on with making the executable. -/
theorem run_buildIn_of_ok (settings : ToolchainSettings)
    (hstore : (store (directory.join "tmp.s") assembly).run.run world = (.ok (), stored)) :
    (buildIn settings assembly directory).run.run world =
      (link settings (directory.join executableName) (directory.join "tmp.s") >>= fun executable ↦
        execute settings executable.text executable).run.run stored := by
  unfold buildIn
  rw [run_bind, run_bind, run_assemble_of_ok settings (Path.withSuffix?_join directory) hstore]

/-- Once its program is stored, a build does what its two commands do, and changes no more files. -/
theorem run_buildIn (settings : ToolchainSettings)
    (hstore : (store (directory.join "tmp.s") assembly).run.run world = (.ok (), stored)) :
    let build := settings.buildCommand directory
    let run := settings.runCommand directory world.workspace.home
    ∃ result after started,
      (buildIn settings assembly directory).run.run world = (result, after) ∧
      Concluded build run (directory.join executableName) (world.outcome build)
        ((world.started build).outcome run) result started ∧
      after.commands = world.commands ++ started ∧ after.workspace = stored.workspace := by
  intro build run
  obtain ⟨hcommands, hendings, hlongest⟩ := eq_of_run_store_ok hstore
  have hkeeps : World.Keeps (fun _ ↦ True) world
      ((store (directory.join "tmp.s") assembly).run.run world).2 := .store fun _ _ ↦ trivial
  rw [hstore] at hkeeps
  have hhome : stored.workspace.home = world.workspace.home := hkeeps.workspace.home
  rw [run_buildIn_of_ok settings hstore]
  obtain ⟨outcome, hlink, hbuild⟩ :=
    run_link settings (directory.join executableName) (directory.join "tmp.s") stored
  change Assembled build _ (stored.outcome build) outcome at hbuild
  rw [World.outcome_eq hendings hlongest] at hbuild
  cases outcome with
  | error failure =>
      exact ⟨_, _, _, run_bind_of_error hlink, .unbuilt hbuild, congrArg (· ++ _) hcommands, rfl⟩
  | ok executable =>
      obtain ⟨rfl, -⟩ := hbuild.of_ok
      rw [run_bind_of_ok hlink]
      obtain ⟨result, after, hrun, hended, hafter, hworkspace⟩ :=
        run_execute settings (directory.join executableName).text
          (notMem_text_executable (notMem_text_of_run_store_ok hstore))
          ((stored.noting [.running build.words]).started build)
      change Executed (settings.runCommand directory stored.workspace.home)
        ((stored.started build).outcome (settings.runCommand directory stored.workspace.home))
        result at hended
      change after.commands = (stored.commands ++ [build]) ++
        [settings.runCommand directory stored.workspace.home] at hafter
      have htail : (stored.started build).endings = (world.started build).endings :=
        congrArg List.tail hendings
      rw [hhome, World.outcome_eq htail hlongest] at hended
      rw [hhome, hcommands, List.append_assoc] at hafter
      exact ⟨result, after, _, hrun, .built hbuild hended, hafter, hworkspace⟩

/-- A deed comes to what the two commands for a directory come to, and starts no others. -/
def Concludes (settings : ToolchainSettings) (directory : Path) (world : World) (deed : Deed Int) :
    Prop :=
  let build := settings.buildCommand directory
  let run := settings.runCommand directory world.workspace.home
  ∃ result after started, deed.run.run world = (result, after) ∧
    Concluded build run (directory.join executableName) (world.outcome build)
      ((world.started build).outcome run) result started ∧
    after.commands = world.commands ++ started

theorem concludes_buildIn (settings : ToolchainSettings)
    (hstore : (store (directory.join "tmp.s") assembly).run.run world = (.ok (), stored)) :
    Concludes settings directory world (buildIn settings assembly directory) := by
  obtain ⟨result, after, started, hrun, hconcluded, hcommands, -⟩ := run_buildIn settings hstore
  exact ⟨result, after, started, hrun, hconcluded, hcommands⟩

theorem concludes_buildAndRun {settings : ToolchainSettings} (hscratch : world.scratch = none)
    (hwritable : settings.Writable world) (assembly : String) :
    Concludes settings (settings.workDir.getD world.temporary) world
      (buildAndRun settings assembly) := by
  unfold ToolchainSettings.Writable at hwritable
  unfold buildAndRun
  cases hdirectory : settings.workDir with
  | some directory =>
      rw [hdirectory] at hwritable
      obtain ⟨hnull, made, hensure, hmade⟩ := hwritable
      obtain ⟨stored, hstored⟩ := hmade assembly
      have hhome : made.home = world.workspace.home := by
        have hgrows := Workspace.Grows.ensure world.workspace directory
        rw [hensure] at hgrows
        exact hgrows.home
      have hstore : (store (directory.join "tmp.s") assembly).run.run
          { world with workspace := made } = (.ok (), { world with workspace := stored }) :=
        run_store_of_ok hscratch (hnull.join (by decide)) hstored
      have hbuild := concludes_buildIn settings hstore
      unfold Concludes at hbuild ⊢
      rw [run_bind_of_ok (run_ensure_of_none hnull hensure), ← hhome]
      exact hbuild
  | none =>
      rw [hdirectory] at hwritable
      obtain ⟨stored, hstore⟩ := exists_run_store_scratch hwritable assembly
      obtain ⟨result, built, started, hrun, hconcluded, hcommands⟩ :=
        concludes_buildIn settings hstore
      refine ⟨result, { built with scratch := none }, started, ?_, hconcluded, hcommands⟩
      dsimp only
      rw [run_withTemporary, hrun]

end Deed

end ArithAsm
