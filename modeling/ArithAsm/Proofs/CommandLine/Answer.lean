import ArithAsm.CommandLine.Response
import ArithAsm.Proofs.Compilation.Accepted
import ArithAsm.Proofs.Toolchain.Deeds

/-!
# Answers to plain requests

Where a request neither runs a program nor stores one, its answer is told by its product alone.
-/

namespace ArithAsm

namespace CommandLine

/-- The exit code that a result leads to. -/
def exitCodeOf {α : Type} (result : Except Failure α) : ExitCode :=
  match result with
  | .ok _ => .success
  | .error failure => failure.exitCode

namespace Request

variable {request : Request}

theorem perform_of_shown (hrun : request.run = false) (houtput : request.output = none) :
    request.perform = Deed.ofLogged request.product >>= fun text ↦
      pure (Text.dropSequences text) := by
  obtain ⟨expression, mode, output, remarks, entry, run, verbose⟩ := request
  obtain rfl : run = false := hrun
  obtain rfl : output = none := houtput
  rfl

theorem exitCode_respond_of_shown (hrun : request.run = false) (houtput : request.output = none)
    (world : World) : (request.respond world).1.exitCode = exitCodeOf request.product.result := by
  rw [respond, perform_of_shown hrun houtput, Attempt.run_bind, Deed.run_ofLogged]
  cases request.product.result <;> rfl

theorem exitCode_product_x86 (hmode : request.mode = .x86) :
    exitCodeOf request.product.result =
      exitCodeOf (Compilation.compile { entry := request.entry, remarks := request.remarks }
        sourceName request.expression).result := by
  rw [product, hmode]
  dsimp only
  cases h : (Compilation.compile { entry := request.entry, remarks := request.remarks }
      sourceName request.expression).result with
  | error failure => rw [Logged.result_andThen_of_error h]; rfl
  | ok compiled => rw [Logged.result_andThen_of_ok h]; rfl

end Request

theorem respond_of_process {arguments : List String} {world : World} {request : Request}
    (h : Intent.ofArguments world.workspace arguments = .ok (.process request)) :
    respond arguments world = request.respond world := by
  unfold respond
  rw [h]

/-- What follows a separator is an expression, whatever it looks like. -/
theorem ofArguments_separator (workspace : Workspace) (text : String) :
    Intent.ofArguments workspace ["--", text] = .ok (.process { expression := text }) := rfl

theorem exitCode_respond_separator (text : String) (world : World) :
    (respond ["--", text] world).1.exitCode =
      exitCodeOf (Compilation.compile {} Request.sourceName text).result := by
  rw [respond_of_process (ofArguments_separator _ _)]
  exact (Request.exitCode_respond_of_shown rfl rfl world).trans
    (Request.exitCode_product_x86 rfl)

end CommandLine

end ArithAsm
