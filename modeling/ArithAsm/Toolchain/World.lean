import ArithAsm.Toolchain.Command
import ArithAsm.Toolchain.Settings

/-!
# The world around a build

What building a program touches: files, the environment, and commands.  How each command ends is
given in advance, and which ones were started is kept.
-/

namespace ArithAsm

/-- The state of the world. -/
structure World where
  workspace : Workspace := {}
  /-- The content of the temporary directory, while there is one. -/
  scratch : Option Workspace := none
  /-- The full path that a temporary directory gets. -/
  temporary : Path
  environment : Environment := []
  /-- How the commands to come will end; those beyond the list end well. -/
  endings : List (Ending Output) := []
  /-- The most milliseconds that the system can wait for a command, if it heeds time limits. -/
  longestWait : Option Nat := none
  commands : List Command := []
  events : List Event := []
  /-- The trace that is there while a failure is handled. -/
  trace : Failure → String := fun _ => Failure.noTrace
deriving Inhabited

/-- How the next command will end. -/
def World.nextEnding (world : World) : Ending Output :=
  world.endings.headD (.exit 0 "")

/-- What will be seen of a command that is started next. -/
def World.outcome (world : World) (command : Command) : Except Failure (Ending String) :=
  command.outcome world.longestWait world.nextEnding

/-- The world after one more command. -/
def World.started (world : World) (command : Command) : World :=
  { world with endings := world.endings.tail, commands := world.commands ++ [command] }

/-- Something done in the world.  What was done before a failure stays done. -/
abbrev Deed := ExceptT Failure (StateM World)

namespace Deed

def report (event : Event) : Deed Unit :=
  modify fun w => { w with events := w.events ++ [event] }

def ofLogged {α : Type} (logged : Logged α) : Deed α := do
  modify fun w => { w with events := w.events ++ logged.events }
  match logged.result with
  | .ok a => return a
  | .error failure => throw failure

/-- Starts a command and waits for its ending. -/
def start (command : Command) : Deed (Ending String) := do
  let world ← get
  set (world.started command)
  match world.outcome command with
  | .ok ending => return ending
  | .error failure => throw failure

/-- Refuses a path with a null character, which cannot be put to the operating system. -/
def checkPath (path : Path) : Deed Unit := do
  if path.text.toList.contains '\x00' then throw (.badValue "embedded null byte")

/-- Stores a text under a path, in the temporary directory if the path leads there. -/
def store (path : Path) (content : String) : Deed Unit := do
  checkPath path
  let w ← get
  match w.scratch, w.temporary.below? path with
  | some scratch, some inner =>
      match scratch.store inner content with
      | .ok scratch => set { w with scratch := some scratch }
      | .error fault => throw (.system { fault with file := some path.text })
  | _, _ =>
      match w.workspace.store path content with
      | .ok workspace => set { w with workspace }
      | .error fault => throw (.system fault)

def ensure (path : Path) : Deed Unit := do
  checkPath path
  let w ← get
  let (workspace, fault) := w.workspace.ensure path
  set { w with workspace }
  if let some fault := fault then throw (.system fault)

/-- Does something with a temporary directory, which is gone afterwards. -/
def withTemporary {α : Type} (deed : Path → Deed α) : Deed α := fun w =>
  let (result, after) := (deed w.temporary).run.run { w with scratch := some {} }
  (result, { after with scratch := none })

/-- The given settings, or those of the environment. -/
def settings (given : Option ToolchainSettings) : Deed ToolchainSettings := do
  match given with
  | some settings => return settings
  | none => ofLogged (ToolchainSettings.ofEnvironment (← get).environment)

end Deed

end ArithAsm
