import ArithAsm.Proofs.CommandLine.Delivery
import ArithAsm.Proofs.Toolchain.Endings
import ArithAsm.Proofs.Toolchain.Refusals

/-!
# Output files that cannot be written

Where the system refuses to write the output file, the command line prints nothing and leaves all
files alone.  What stands in the way decides on the exit code.
-/

namespace ArithAsm

/-- The exit code that an obstacle to the output file leads to. -/
def Obstacle.exitCode : Obstacle → ExitCode
  | missingParent => .invalidArguments
  | directory => .invalidArguments
  | fileAsParent => .internalError
  | tooLong => .internalError
  | barred fault => if fault.isArgumentFault then .invalidArguments else .internalError

theorem Obstacle.exitCode_eq {obstacle : Obstacle} {fault : SystemFault} {path : String}
    (h : fault = obstacle.fault path) :
    obstacle.exitCode = (Failure.system fault).exitCode := by
  rw [h]
  cases obstacle <;> rfl

namespace CommandLine

/-! ## Arguments in order -/

section

variable {workspace : Workspace} {given : Arguments} {mode : Mode} {texts : List String}
  {request : Request}

/-- The request that arguments make, if their output file is no directory. -/
def Arguments.requestFor (given : Arguments) (expression : String) (mode : Mode) : Request where
  expression
  mode
  output := (given.last? .output).map Path.ofText
  remarks := given.has .comments
  entry := (given.last? .entry).getD "main"
  run := given.has .run
  verbose := given.has .verbose

/-- The arguments are in order and make a request, whatever files there are. -/
inductive Asks (texts : List String) : Request → Prop where
  | intro {given : Arguments} {expression : String} {mode : Mode}
      (hread : Arguments.read texts = .ok given)
      (heager : given.order.find? Switch.isEager = none)
      (hexpression : expressionOf given = .ok expression) (hmode : modeOf given = .ok mode) :
      Asks texts (given.requestFor expression mode)

theorem Arguments.mem_order_of_last? {s : Switch} {value : String}
    (h : given.last? s = some value) : s ∈ given.order := by
  obtain ⟨before, after, hsplit, -⟩ := List.lookup_eq_some_iff.mp h
  apply List.mem_eraseDups.mpr
  apply List.mem_map.mpr
  refine ⟨(s, value), ?_, rfl⟩
  apply List.mem_reverse.mp
  rw [hsplit]
  simp

/-- Only the check of the output file may still fail. -/
theorem forM_check (hmode : modeOf given = .ok mode) (order : List Switch) :
    order.forM (check workspace given) =
      if .output ∈ order then check workspace given .output else .ok () := by
  induction order with
  | nil => rfl
  | cons s rest ih =>
      change (check workspace given s >>= fun _ ↦ rest.forM (check workspace given)) = _
      by_cases hs : s = .output
      · subst hs
        rw [ih, if_pos List.mem_cons_self]
        cases hcheck : check workspace given .output with
        | error fault => rfl
        | ok done => simp [bind, Except.bind]
      · have hcheck : check workspace given s = .ok () := by
          cases s with
          | output => exact absurd rfl hs
          | mode => rw [check, hmode]; rfl
          | _ => rfl
        have hmem : .output ∈ s :: rest ↔ .output ∈ rest := by simp [Ne.symm hs]
        rw [hcheck]
        exact ih.trans (by simp only [hmem])

theorem ofArguments_of_asks (h : Asks texts request) (workspace : Workspace) :
    Intent.ofArguments workspace texts = .ok (.process request) ∨
      ∃ value, request.output = some (.ofText value) ∧ workspace.namesDirectory value = true ∧
        Intent.ofArguments workspace texts = .error (.outputIsDirectory value) := by
  obtain @⟨given, expression, mode, hread, heager, hexpression, hmode⟩ := h
  unfold Intent.ofArguments
  rw [hread]
  dsimp only [bind, Except.bind]
  rw [heager]
  unfold requestOf
  rw [forM_check hmode]
  cases hvalue : given.last? .output with
  | none =>
      have houtput : outputOf workspace given = .ok none := by rw [outputOf, hvalue]
      have hcheck : check workspace given .output = .ok () := by
        rw [check, houtput]
        rfl
      left
      rw [hcheck, ite_self, hexpression, hmode, houtput, Arguments.requestFor, hvalue]
      rfl
  | some value =>
      rw [if_pos (Arguments.mem_order_of_last? hvalue)]
      by_cases hdirectory : workspace.namesDirectory value = true
      · right
        refine ⟨value, ?_, hdirectory, ?_⟩
        · rw [Arguments.requestFor, hvalue]
          rfl
        · have houtput : outputOf workspace given = .error (.outputIsDirectory value) := by
            rw [outputOf, hvalue]
            exact if_pos hdirectory
          rw [check, houtput]
          rfl
      · left
        have houtput : outputOf workspace given = .ok (some (.ofText value)) := by
          rw [outputOf, hvalue]
          exact if_neg hdirectory
        have hcheck : check workspace given .output = .ok () := by
          rw [check, houtput]
          rfl
        rw [hcheck, hexpression, hmode, houtput, Arguments.requestFor, hvalue]
        rfl

end

/-! ## The answer -/

theorem Request.respond_of_refused {request : Request} {world : World} {path : Path} {text : String}
    {fault : SystemFault} (hscratch : world.scratch = none) (hrun : request.run = false)
    (houtput : request.output = some path) (hnull : path.NullFree)
    (hproduct : request.product.result = .ok text)
    (hrefused : world.workspace.store path text = .error fault) :
    ∃ errors, request.respond world =
      ({ exitCode := (Failure.system fault).exitCode, errors },
        world.noting request.product.events) := by
  have hnoted : (Deed.ofLogged request.product).run.run world =
      (.ok text, world.noting request.product.events) := by
    rw [Deed.run_ofLogged, hproduct]
  have hscratch' : (world.noting request.product.events).scratch = none := hscratch
  have hperform : request.perform.run.run world =
      (.error (.system fault), world.noting request.product.events) := by
    rw [perform_of_stored hrun houtput, Attempt.run_bind_of_ok hnoted, Attempt.run_bind,
      Deed.run_store_of_error hscratch' hnull hrefused]
  exact respond_of_run_perform hperform

section

variable {arguments : List String} {request : Request} {world : World} {path : Path}
  {text : String} {fault : SystemFault}

/-- A refusal is noticed when the file is written or, where the file is a directory, while the
arguments are read. -/
theorem respond_of_refused (hscratch : world.scratch = none) (hasks : Asks arguments request)
    (hrun : request.run = false) (houtput : request.output = some path) (hnull : path.NullFree)
    (hproduct : request.product.result = .ok text)
    (hrefused : world.workspace.store path text = .error fault) :
    (respond arguments world).1.output = "" ∧
    (respond arguments world).2.workspace = world.workspace ∧
    (respond arguments world).1.exitCode = (Failure.system fault).exitCode := by
  rcases ofArguments_of_asks hasks world.workspace with
    hintent | ⟨value, hvalue, hdirectory, hintent⟩
  · rw [respond_of_process hintent]
    obtain ⟨errors, hrespond⟩ :=
      Request.respond_of_refused hscratch hrun houtput hnull hproduct hrefused
    rw [hrespond]
    exact ⟨rfl, rfl, rfl⟩
  · obtain rfl := Option.some_inj.mp (houtput.symm.trans hvalue)
    unfold Workspace.namesDirectory at hdirectory
    rw [Bool.and_eq_true] at hdirectory
    obtain ⟨hspelling, place, hleads⟩ := Workspace.exists_leads_of_isDirectory hdirectory.2
    rw [(Workspace.Blocks.directory hspelling hleads).store_eq] at hrefused
    obtain rfl := Except.error.inj hrefused
    unfold respond
    rw [hintent]
    exact ⟨rfl, rfl, rfl⟩

/-- Where the system refuses to write the output file, nothing is printed and no file changes.  The
exit code is told by what stands in the way: wrong arguments where a directory is missing or the
file is one, but an internal error where a file stands in place of a directory or a name is too
long. -/
theorem respond_of_unwritable (hscratch : world.scratch = none) (hasks : Asks arguments request)
    (hrun : request.run = false) (houtput : request.output = some path) (hnull : path.NullFree)
    (hproduct : request.product.result = .ok text)
    (hrefused : world.workspace.store path text = .error fault) :
    (respond arguments world).1.output = "" ∧
    (respond arguments world).2.workspace = world.workspace ∧
    (∃ obstacle, world.workspace.Blocks path obstacle) ∧
    ∀ obstacle, world.workspace.Blocks path obstacle →
      (respond arguments world).1.exitCode = obstacle.exitCode := by
  obtain ⟨hprinted, hfiles, hcode⟩ :=
    respond_of_refused hscratch hasks hrun houtput hnull hproduct hrefused
  obtain ⟨obstacle, hblocks, -⟩ := Workspace.store_eq_error_iff.mp hrefused
  refine ⟨hprinted, hfiles, ⟨obstacle, hblocks⟩, ?_⟩
  intro other hother
  rw [hother.store_eq] at hrefused
  rw [hcode]
  exact (Obstacle.exitCode_eq (Except.error.inj hrefused).symm).symm

end

/-- A file in place of a directory, a file that may not be written, and the working directory. -/
theorem respond_of_unwritable_behind_file :
    let world : Workspace → World := fun workspace ↦
      { workspace, temporary := { anchor := .root, parts := ["tmp", "scratch"] } }
    let behind := world { home := ["work"], entries := [(["work", "f"], .file "old")] }
    let forbidden := world {
      home := ["work"]
      barred := [(["work", "x.s"], ⟨13, "Permission denied", none⟩)] }
    ((respond ["-o", "f/x.s", "1"] behind).1.exitCode = .internalError ∧
      (respond ["-o", "f/x.s", "1"] behind).2.workspace = behind.workspace) ∧
    (respond ["-o", "x.s", "1"] forbidden).1.exitCode = .invalidArguments ∧
    (respond ["-o", ".", "1"] behind).1.exitCode = .invalidArguments := by
  intro world behind forbidden
  have hasks (path : String) :
      Asks ["-o", path, "1"] { expression := "1", output := some (Path.ofText path) } :=
    @Asks.intro ["-o", path, "1"] { switches := [(.output, path)], rest := ["1"] } "1" .x86
      rfl rfl rfl rfl
  have hsome : (Request.product { expression := "1" }).result.toOption.map (fun _ ↦ ()) =
      some () := by
    decide +kernel
  obtain ⟨text, htext, -⟩ := exists_ok_of_map_toOption hsome
  refine ⟨?_, ?_, ?_⟩
  · have hrefused : behind.workspace.store (.ofText "f/x.s") text =
        .error (.notDirectory "f/x.s") := rfl
    have hfile : behind.workspace.Halts ["work"] "f" .fileAsParent := .file (by decide) rfl
    have hblocks : behind.workspace.Blocks (.ofText "f/x.s") .fileAsParent :=
      .name rfl (by decide) (rfl : _ = [] ++ "f" :: ["x.s"]) (by decide) (.here _) hfile
        (.inr (by decide))
    obtain ⟨-, hsame, -, hcode⟩ :=
      respond_of_unwritable rfl (hasks "f/x.s") rfl rfl (by decide) htext hrefused
    exact ⟨hcode _ hblocks, hsame⟩
  · have hrefused : forbidden.workspace.store (.ofText "x.s") text =
        .error ⟨13, "Permission denied", some "x.s"⟩ := rfl
    have hblocks := Workspace.Blocks.barred (rfl : forbidden.workspace.barrier? (.ofText "x.s") = _)
    obtain ⟨-, -, -, hcode⟩ :=
      respond_of_unwritable rfl (hasks "x.s") rfl rfl (by decide) htext hrefused
    exact hcode _ hblocks
  · have hrefused : behind.workspace.store (.ofText ".") text = .error (.isDirectory ".") := rfl
    have hblocks : behind.workspace.Blocks (.ofText ".") .directory :=
      .directory (by decide) (.here _)
    obtain ⟨-, -, -, hcode⟩ :=
      respond_of_unwritable rfl (hasks ".") rfl rfl (by decide) htext hrefused
    exact hcode _ hblocks

end CommandLine

end ArithAsm
