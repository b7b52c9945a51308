import ArithAsm.Toolchain.Build
import ArithAsm.Proofs.Attempts
import ArithAsm.Proofs.Toolchain.Files
import ArithAsm.Proofs.Toolchain.Outcomes

/-!
# What deeds leave alone

Whatever comes of a build, no file changes but the one that the program is stored in, and none at
all where this is in a temporary directory.
-/

namespace ArithAsm

open Attempt

namespace Path

@[simp] theorem name_join (path : Path) (name : String) : (path.join name).name = name := by
  simp [join, Path.name]

@[simp] theorem parent_join (path : Path) (name : String) : (path.join name).parent = path := by
  simp [join, parent]

theorem withSuffix?_join (directory : Path) :
    (directory.join Deed.executableName).withSuffix? assemblySuffix =
      some (directory.join "tmp.s") := by
  unfold withSuffix?
  rw [name_join, parent_join]
  rfl

/-- A name below a directory is the last one of the path from there, if that has names. -/
theorem below?_join_cases {directory path inner : Path} {name : String}
    (h : directory.below? (path.join name) = some inner) :
    inner.parts = [] ∨ ∃ above : Path, inner = above.join name := by
  unfold below? at h
  split at h
  · cases h
    by_cases hlength : directory.parts.length ≤ path.parts.length
    · refine .inr ⟨{ parts := path.parts.drop directory.parts.length }, ?_⟩
      simp [join, List.drop_append_of_le_length hlength]
    · left
      simp only [join]
      refine List.drop_eq_nil_of_le ?_
      rw [List.length_append, List.length_singleton]
      omega
  · cases h

theorem below?_join (directory : Path) (name : String) :
    directory.below? (directory.join name) = some { parts := [name] } := by
  simp [below?, join]

end Path

/-- The world with more events. -/
def World.noting (world : World) (events : List Event) : World :=
  { world with events := world.events ++ events }

namespace Deed

variable {α β : Type}

theorem run_ofLogged (logged : Logged α) (world : World) :
    (Deed.ofLogged logged).run.run world = (logged.result, world.noting logged.events) := by
  unfold Deed.ofLogged
  obtain ⟨result, events⟩ := logged
  cases result <;> rfl

theorem eq_of_run_ofLogged {logged : Logged α} {world after : World} {result : Except Failure α}
    (h : (Deed.ofLogged logged).run.run world = (result, after)) :
    logged.result = result ∧ after = world.noting logged.events := by
  obtain ⟨hresult, hafter⟩ := Prod.mk.inj ((run_ofLogged logged world).symm.trans h)
  exact ⟨hresult, hafter.symm⟩

theorem run_start (command : Command) (world : World) :
    (start command).run.run world = (world.outcome command, world.started command) := by
  unfold start
  rw [run_bind_of_ok (run_get world), run_bind_of_ok (run_set (world.started command) world)]
  cases world.outcome command <;> rfl

theorem run_withTemporary (deed : Path → Deed α) (world : World) :
    (withTemporary deed).run.run world =
      let outcome := (deed world.temporary).run.run { world with scratch := some {} }
      (outcome.1, { outcome.2 with scratch := none }) := rfl

end Deed

namespace World

variable {before between after world : World} {spent : List String → Prop} {path : Path}

/-- The place of the file that is written under a path, if it is not in the temporary directory. -/
def placeOf? (world : World) (path : Path) : Option (List String) :=
  if world.scratch.isSome && (world.temporary.below? path).isSome then none
  else some (path.resolve world.workspace.home).parts

theorem placeOf?_eq_none {scratch : Workspace} {inner : Path}
    (hscratch : world.scratch = some scratch) (hbelow : world.temporary.below? path = some inner) : world.placeOf? path = none := by
  simp [placeOf?, hscratch, hbelow]

/-- The text in the file that is written under a path. -/
def textAt? (world : World) (path : Path) : Option String :=
  match world.scratch, world.temporary.below? path with
  | some scratch, some inner => scratch.fileAt? (inner.resolve scratch.home).parts
  | _, _ => world.workspace.fileAt? (path.resolve world.workspace.home).parts

theorem textAt?_of_below? {scratch : Workspace} {inner : Path}
    (hscratch : world.scratch = some scratch) (hbelow : world.temporary.below? path = some inner) :
    world.textAt? path = scratch.fileAt? (inner.resolve scratch.home).parts := by
  unfold textAt?
  rw [hscratch, hbelow]

theorem textAt?_of_placeOf? {place : List String} (h : world.placeOf? path = some place) :
    world.textAt? path = world.workspace.fileAt? (path.resolve world.workspace.home).parts := by
  unfold textAt?
  split
  · rename_i hscratch hbelow
    rw [placeOf?_eq_none hscratch hbelow] at h
    cases h
  · rfl

/-- All files are the same but those at some places, and paths mean the same. -/
structure Keeps (spent : List String → Prop) (before after : World) : Prop where
  workspace : before.workspace.Keeps spent after.workspace
  temporary : after.temporary = before.temporary
  scratch : after.scratch.isSome = before.scratch.isSome

namespace Keeps

theorem refl (world : World) : Keeps spent world world :=
  ⟨.refl _, rfl, rfl⟩

theorem trans (hf : Keeps spent before between) (hs : Keeps spent between after) :
    Keeps spent before after :=
  ⟨hf.workspace.trans hs.workspace, hs.temporary.trans hf.temporary, hs.scratch.trans hf.scratch⟩

theorem placeOf?_eq (h : Keeps spent before after) (path : Path) :
    after.placeOf? path = before.placeOf? path := by
  unfold placeOf?
  rw [h.scratch, h.temporary, h.workspace.home]

variable {α β : Type}

/-- One deed after another. -/
theorem bind {first : Deed α} {next : α → Deed β} (hf : Keeps spent world (first.run.run world).2)
    (hn : ∀ a between, first.run.run world = (.ok a, between) → Keeps spent world between →
      Keeps spent between ((next a).run.run between).2) :
    Keeps spent world ((first >>= next).run.run world).2 := by
  rw [Attempt.run_bind]
  rcases hfirst : first.run.run world with ⟨result, between⟩
  rw [hfirst] at hf
  cases result with
  | error failure => exact hf
  | ok a => exact hf.trans (hn a between hfirst hf)

theorem report (event : Event) : Keeps spent world ((Deed.report event).run.run world).2 :=
  ⟨.refl _, rfl, rfl⟩

theorem start (command : Command) : Keeps spent world ((Deed.start command).run.run world).2 := by
  rw [Deed.run_start]
  exact ⟨.refl _, rfl, rfl⟩

theorem checkPath (path : Path) : Keeps spent world ((Deed.checkPath path).run.run world).2 := by
  unfold Deed.checkPath
  split <;> exact refl world

theorem throw (failure : Failure) :
    Keeps spent world ((throw failure : Deed α).run.run world).2 :=
  refl world

theorem pure (a : α) : Keeps spent world ((pure a : Deed α).run.run world).2 :=
  refl world

end Keeps

end World

namespace Deed

variable {world after : World} {path : Path}

theorem eq_of_run_checkPath {result : Except Failure Unit}
    (h : (checkPath path).run.run world = (result, after)) : after = world := by
  unfold checkPath at h
  split at h <;> cases h <;> rfl

/-- The ending of the compiler is only looked at. -/
theorem eq_of_run_finishLink {settings : ToolchainSettings} {executable program : Path}
    {ending : Ending String} {result : Except Failure Path}
    (h : (finishLink settings executable program ending).run.run world = (result, after)) :
    after = world ∧ ∀ made, result = .ok made → made = executable := by
  unfold finishLink at h
  cases ending with
  | exit status errors =>
      dsimp only at h
      split at h
      · cases h
        refine ⟨rfl, ?_⟩
        rintro made ⟨⟩
        rfl
      · cases h
        exact ⟨rfl, nofun⟩
  | timedOut =>
      cases h
      exact ⟨rfl, nofun⟩
  | refused code reason =>
      dsimp only at h
      split at h
      · cases h
        exact ⟨rfl, nofun⟩
      · cases h
        exact ⟨rfl, nofun⟩

/-- What storing a text may come to. -/
theorem run_store_cases {content : String} {result : Except Failure Unit}
    (h : (store path content).run.run world = (result, after)) :
    (∃ failure, result = .error failure ∧ after = world) ∨
    (∃ workspace, result = .ok () ∧ world.workspace.store path content = .ok workspace ∧
      world.placeOf? path = some (path.resolve world.workspace.home).parts ∧
      after = { world with workspace }) ∨
    ∃ old inner scratch, result = .ok () ∧ world.scratch = some old ∧
      world.temporary.below? path = some inner ∧ old.store inner content = .ok scratch ∧
      after = { world with scratch := some scratch } := by
  unfold store at h
  rcases run_bind_cases h with ⟨failure, hcheck, rfl⟩ | ⟨_, between, hcheck, hstored⟩
  · obtain rfl := eq_of_run_checkPath hcheck
    exact .inl ⟨failure, rfl, rfl⟩
  · obtain rfl := eq_of_run_checkPath hcheck
    rw [run_bind_of_ok (run_get between)] at hstored
    -- A path below the temporary directory is stored there, and any other among the files.
    split at hstored
    · rename_i scratch inner hscratch hbelow
      cases hstore : scratch.store inner content with
      | error fault =>
          rw [hstore] at hstored
          cases hstored
          exact .inl ⟨_, rfl, rfl⟩
      | ok stored =>
          rw [hstore] at hstored
          cases hstored
          exact .inr (.inr ⟨scratch, inner, stored, rfl, hscratch, hbelow, hstore, rfl⟩)
    · rename_i houtside
      have hplace : between.placeOf? path = some (path.resolve between.workspace.home).parts := by
        refine if_neg fun hinside ↦ ?_
        rw [Bool.and_eq_true, Option.isSome_iff_exists, Option.isSome_iff_exists] at hinside
        obtain ⟨⟨scratch, hscratch⟩, inner, hbelow⟩ := hinside
        exact houtside scratch inner hscratch hbelow
      cases hstore : between.workspace.store path content with
      | error fault =>
          rw [hstore] at hstored
          cases hstored
          exact .inl ⟨_, rfl, rfl⟩
      | ok stored =>
          rw [hstore] at hstored
          cases hstored
          exact .inr (.inl ⟨stored, rfl, rfl, hplace, rfl⟩)

/-- Without a temporary directory a text is stored among the files. -/
theorem run_store_outside {content : String} {result : Except Failure Unit}
    (hscratch : world.scratch = none)
    (h : (store path content).run.run world = (result, after)) :
    (∃ failure, result = .error failure ∧ after = world) ∨
      result = .ok () ∧ world.workspace.store path content = .ok after.workspace ∧
        after.commands = world.commands := by
  rcases run_store_cases h with herror | ⟨stored, rfl, hstore, -, rfl⟩ | ⟨_, _, _, -, hinside, -⟩
  · exact .inl herror
  · exact .inr ⟨rfl, hstore, rfl⟩
  · rw [hscratch] at hinside
    cases hinside

theorem eq_of_run_store_error {content : String} {failure : Failure}
    (h : (store path content).run.run world = (.error failure, after)) : after = world := by
  rcases run_store_cases h with ⟨_, -, hsame⟩ | ⟨_, hresult, -⟩ | ⟨_, _, _, hresult, -⟩
  · exact hsame
  · cases hresult
  · cases hresult

/-- Making a directory changes nothing but that there are new directories on the way to it. -/
theorem run_ensure_cases (path : Path) (world : World) :
    ∃ workspace, world.workspace.Grows (path.Passes world.workspace.home) workspace ∧
      ((ensure path).run.run world).2 = { world with workspace } := by
  rcases hrun : (ensure path).run.run world with ⟨result, after⟩
  unfold ensure at hrun
  rcases run_bind_cases hrun with ⟨failure, hcheck, -⟩ | ⟨_, between, hcheck, hensure⟩
  · obtain rfl := eq_of_run_checkPath hcheck
    exact ⟨after.workspace, .refl _, rfl⟩
  · obtain rfl := eq_of_run_checkPath hcheck
    refine ⟨(between.workspace.ensure path).1, .ensure _ _, ?_⟩
    rw [run_bind_of_ok (run_get between)] at hensure
    dsimp only at hensure
    rcases run_bind_cases hensure with ⟨failure, hset, -⟩ | ⟨_, _, hset, hend⟩
    · cases hset
    · cases hset
      split at hend <;> cases hend <;> rfl

end Deed

namespace World.Keeps

variable {α : Type} {world : World} {spent : List String → Prop} {path : Path}

theorem store {content : String} (h : ∀ place, world.placeOf? path = some place → spent place) :
    Keeps spent world ((Deed.store path content).run.run world).2 := by
  rcases hrun : (Deed.store path content).run.run world with ⟨result, after⟩
  rcases Deed.run_store_cases hrun with ⟨_, -, rfl⟩ | ⟨stored, -, hstore, hplace, rfl⟩ |
    ⟨old, inner, scratch, -, hscratch, -, -, rfl⟩
  · exact refl after
  · refine ⟨(Workspace.Keeps.store hstore).mono fun place hplace' ↦ ?_, rfl, rfl⟩
    exact h place (hplace' ▸ hplace)
  · exact ⟨.refl _, rfl, by rw [hscratch]; rfl⟩

theorem ensure (path : Path) : Keeps spent world ((Deed.ensure path).run.run world).2 := by
  obtain ⟨workspace, hgrows, hafter⟩ := Deed.run_ensure_cases path world
  rw [hafter]
  exact ⟨⟨hgrows.home, fun place _ ↦ hgrows.fileAt?_eq place⟩, rfl, rfl⟩

theorem link {settings : ToolchainSettings} {executable program : Path} :
    Keeps spent world ((Deed.link settings executable program).run.run world).2 := by
  unfold Deed.link
  refine bind (report _) fun _ between _ _ ↦ ?_
  refine bind (start _) fun ending between _ _ ↦ ?_
  rcases hend : (Deed.finishLink settings executable program ending).run.run between with
    ⟨result, after⟩
  rw [(Deed.eq_of_run_finishLink hend).1]
  exact refl between

theorem assemble {settings : ToolchainSettings} {assembly : String} {executable program : Path}
    (hprogram : executable.withSuffix? assemblySuffix = some program)
    (h : ∀ place, world.placeOf? program = some place → spent place) :
    Keeps spent world ((Deed.assemble settings assembly executable).run.run world).2 := by
  unfold Deed.assemble
  rw [hprogram]
  exact bind (store h) fun _ _ _ _ ↦ link

theorem execute {settings : ToolchainSettings} {name : String} {executable : Path} :
    Keeps spent world ((Deed.execute settings name executable).run.run world).2 := by
  unfold Deed.execute
  refine bind (checkPath executable) fun _ between _ _ ↦ ?_
  refine bind (refl between) fun _ between _ _ ↦ ?_
  refine bind (start _) fun ending between _ _ ↦ ?_
  cases ending with
  | exit status errors => exact bind (report _) fun _ between _ _ ↦ pure _
  | timedOut => exact throw _
  | refused code reason => exact throw _

theorem buildIn {settings : ToolchainSettings} {assembly : String} {directory : Path}
    (h : ∀ place, world.placeOf? (directory.join "tmp.s") = some place → spent place) :
    Keeps spent world ((Deed.buildIn settings assembly directory).run.run world).2 :=
  bind (assemble (Path.withSuffix?_join directory) h) fun _ _ _ _ ↦ execute

/-- A temporary directory takes all files that are written below it. -/
theorem withTemporary {deed : Path → Deed α} (hscratch : world.scratch = none)
    (h : Keeps spent { world with scratch := some {} }
      ((deed world.temporary).run.run { world with scratch := some {} }).2) :
    Keeps spent world ((Deed.withTemporary deed).run.run world).2 := by
  rw [Deed.run_withTemporary]
  exact ⟨h.workspace, h.temporary, by rw [hscratch]⟩

theorem buildAndRun {settings : ToolchainSettings} {assembly : String}
    (hscratch : world.scratch = none)
    (h : ∀ directory, settings.workDir = some directory →
      spent ((directory.join "tmp.s").resolve world.workspace.home).parts) :
    Keeps spent world ((Deed.buildAndRun settings assembly).run.run world).2 := by
  unfold Deed.buildAndRun
  cases hdirectory : settings.workDir with
  | some directory =>
      -- New directories do not change where the program is stored.
      refine bind (ensure directory) fun _ between _ hbetween ↦ buildIn fun place hplace ↦ ?_
      rw [hbetween.placeOf?_eq] at hplace
      unfold placeOf? at hplace
      rw [hscratch] at hplace
      cases hplace
      exact h directory hdirectory
  | none =>
      refine withTemporary hscratch (buildIn fun place hplace ↦ ?_)
      unfold placeOf? at hplace
      rw [Path.below?_join] at hplace
      cases hplace

end World.Keeps

/-! ## Which commands are started -/

namespace Deed

variable {world after : World} {path executable : Path} {settings : ToolchainSettings}
  {assembly name : String}

theorem eq_of_run_store_ok {content : String}
    (h : (store path content).run.run world = (.ok (), after)) :
    after.commands = world.commands ∧ after.endings = world.endings ∧
      after.longestWait = world.longestWait := by
  rcases run_store_cases h with ⟨_, hfail, -⟩ | ⟨_, -, -, -, rfl⟩ | ⟨_, _, _, -, -, -, -, rfl⟩
  · cases hfail
  · exact ⟨rfl, rfl, rfl⟩
  · exact ⟨rfl, rfl, rfl⟩

theorem eq_of_run_ensure_ok (h : (ensure path).run.run world = (.ok (), after)) :
    after.commands = world.commands ∧ after.endings = world.endings := by
  obtain ⟨workspace, -, hafter⟩ := run_ensure_cases path world
  rw [h] at hafter
  obtain rfl : after = { world with workspace } := hafter
  exact ⟨rfl, rfl⟩

theorem eq_of_run_start_ok {command : Command} {ending : Ending String}
    (h : (start command).run.run world = (.ok ending, after)) :
    world.outcome command = .ok ending ∧ after = world.started command := by
  obtain ⟨houtcome, hafter⟩ := Prod.mk.inj ((run_start command world).symm.trans h)
  exact ⟨houtcome, hafter.symm⟩

/-- A program that is built well has taken one command. -/
theorem eq_of_run_link_ok {program : Path}
    (h : (link settings executable program).run.run world = (.ok path, after)) :
    path = executable ∧ (∃ command, after.commands = world.commands ++ [command]) ∧
      after.endings = world.endings.tail := by
  unfold link at h
  obtain ⟨_, _, hreport, hcommand⟩ := exists_of_run_bind h
  cases hreport
  obtain ⟨ending, started, hstart, hend⟩ := exists_of_run_bind hcommand
  obtain ⟨-, rfl⟩ := eq_of_run_start_ok hstart
  obtain ⟨rfl, hmade⟩ := eq_of_run_finishLink hend
  exact ⟨hmade path rfl, ⟨_, rfl⟩, rfl⟩

theorem eq_of_run_assemble_ok
    (h : (assemble settings assembly executable).run.run world = (.ok path, after)) :
    path = executable ∧ (∃ command, after.commands = world.commands ++ [command]) ∧
      after.endings = world.endings.tail := by
  unfold assemble at h
  split at h
  · obtain ⟨_, stored, hstore, hlink⟩ := exists_of_run_bind h
    obtain ⟨hcommands, hendings, -⟩ := eq_of_run_store_ok hstore
    have hlinked := eq_of_run_link_ok hlink
    rwa [hcommands, hendings] at hlinked
  · cases h

/-- A program that runs to its end answers the status it ends with. -/
theorem eq_of_run_execute_ok {status : Int}
    (h : (execute settings name executable).run.run world = (.ok status, after)) :
    (∃ output, world.nextEnding = .exit status output) ∧
      after.commands = world.commands ++
        [⟨[(executable.resolve world.workspace.home).text], settings.timeout, false⟩] := by
  unfold execute at h
  obtain ⟨_, between, hcheck, hrun⟩ := exists_of_run_bind h
  obtain rfl := eq_of_run_checkPath hcheck
  obtain ⟨_, _, hget, hcommand⟩ := exists_of_run_bind hrun
  cases hget
  obtain ⟨ending, started, hstart, hend⟩ := exists_of_run_bind hcommand
  obtain ⟨houtcome, rfl⟩ := eq_of_run_start_ok hstart
  dsimp only at hend
  split at hend
  · obtain ⟨_, _, hreport, hstatus⟩ := exists_of_run_bind hend
    cases hreport
    cases hstatus
    exact ⟨Command.exists_of_outcome_exit houtcome, rfl⟩
  · cases hend
  · cases hend

/-- What a run that comes to its end has started: the building of the program, and then the
program, whose status is the answer. -/
def Ran (settings : ToolchainSettings) (directory : Path) (world after : World) (status : Int) :
    Prop :=
  (∃ output, world.endings.tail.headD (.exit 0 "") = .exit status output) ∧
    ∃ build, after.commands = world.commands ++ [build,
      ⟨[((directory.join executableName).resolve world.workspace.home).text], settings.timeout,
        false⟩]

theorem ran_of_run_buildIn {directory : Path} {status : Int}
    (h : (buildIn settings assembly directory).run.run world = (.ok status, after)) :
    Ran settings directory world after status := by
  unfold buildIn at h
  obtain ⟨executable, built, hassemble, hexecute⟩ := exists_of_run_bind h
  have hkeeps : World.Keeps (fun _ ↦ True) world
      ((assemble settings assembly (directory.join executableName)).run.run world).2 :=
    .assemble (Path.withSuffix?_join directory) fun _ _ ↦ trivial
  rw [hassemble] at hkeeps
  obtain ⟨rfl, ⟨build, hbuild⟩, hendings⟩ := eq_of_run_assemble_ok hassemble
  obtain ⟨hended, hcommands⟩ := eq_of_run_execute_ok hexecute
  unfold World.nextEnding at hended
  rw [hendings] at hended
  refine ⟨hended, build, ?_⟩
  rw [hcommands, hbuild, hkeeps.workspace.home, List.append_assoc]
  rfl

theorem ran_of_run_buildAndRun {status : Int}
    (h : (buildAndRun settings assembly).run.run world = (.ok status, after)) :
    Ran settings (settings.workDir.getD world.temporary) world after status := by
  unfold buildAndRun at h
  cases hdirectory : settings.workDir with
  | some directory =>
      rw [hdirectory] at h
      obtain ⟨_, between, hensure, hbuild⟩ := exists_of_run_bind h
      obtain ⟨hcommands, hendings⟩ := eq_of_run_ensure_ok hensure
      have hkeeps : World.Keeps (fun _ ↦ True) world ((ensure directory).run.run world).2 :=
        .ensure directory
      rw [hensure] at hkeeps
      have hran := ran_of_run_buildIn hbuild
      unfold Ran at hran ⊢
      rwa [hcommands, hendings, hkeeps.workspace.home] at hran
  | none =>
      rw [hdirectory] at h
      rcases hbuild : (buildIn settings assembly world.temporary).run.run
        { world with scratch := some {} } with ⟨result, built⟩
      rw [run_withTemporary, hbuild] at h
      cases h
      have hran := ran_of_run_buildIn hbuild
      exact hran

end Deed

end ArithAsm
