import ArithAsm.CommandLine.Response

/-!
# The command

The outer layer of the program: it gathers the arguments, the environment and the files that
may matter, has them answered, and carries the answer out.  External commands are not started
from here; each is answered as if it could not be found.
-/

namespace ArithAsm.CommandLine

def variableNames : List String :=
  ["EXPRCC_CC", "EXPRCC_CFLAGS", "EXPRCC_WORK_DIR", "EXPRCC_TIMEOUT"]

/-- The variables that are set, with their values. -/
def gatherEnvironment : IO Environment :=
  variableNames.filterMapM fun name => do
    return (← IO.getEnv name).map (name, ·)

/-- What a name stands for now.  The content of a file does not matter. -/
def gatherEntry (name : String) : IO (Option Entry) := do
  try
    let path ← IO.FS.realPath name
    if ← path.isDir then return some .directory
    if ← path.pathExists then return some (.file "")
    return none
  catch _ => return none

/-- The paths that the answer to a command line may depend on. -/
def pathsOfInterest (arguments : List String) (environment : Environment) : List Path :=
  let outputs := match Arguments.read arguments with
    | .ok arguments => (arguments.last? .output).toList.map Path.ofText
    | .error _ => []
  let products := (environment.value? "EXPRCC_WORK_DIR").toList.map fun directory =>
    (Path.ofText directory).join (Deed.executableName ++ assemblySuffix)
  outputs ++ products

/-- How the place with these names from the root is written. -/
def absoluteName (place : List String) : String :=
  Path.text { anchor := .root, parts := place }

/-- What the paths lead through, seen from the working directory. -/
def gatherWorkspace (home : List String) (paths : List Path) : IO Workspace := do
  let mut workspace : Workspace := { home }
  for path in paths do
    for count in [1:path.parts.length + 1] do
      let place := (Path.resolve home { path with parts := path.parts.take count }).parts
      if let some entry ← gatherEntry (absoluteName place) then
        workspace := workspace.put place entry
  return workspace

/-- Brings the files up to date with a workspace that came of another one. -/
def carryOut (before after : Workspace) : IO Unit := do
  for (place, entry) in after.entries do
    if before.find? place ≠ some entry then
      match entry with
      | .directory => IO.FS.createDirAll (absoluteName place)
      | .file content => IO.FS.writeFile (absoluteName place) content

end ArithAsm.CommandLine

open ArithAsm ArithAsm.CommandLine in
def main (arguments : List String) : IO UInt32 := do
  let environment ← gatherEnvironment
  let home ← IO.FS.realPath "."
  let workspace ← gatherWorkspace (Path.namesIn home.toString) (pathsOfInterest arguments environment)
  let world : World := {
    workspace, environment
    temporary := .ofText "/tmp/exprcc-build"
    endings := [.refused 2 "No such file or directory"] }
  let (response, after) := respond arguments world
  carryOut workspace after.workspace
  (← IO.getStdout).putStr response.output
  (← IO.getStderr).putStr response.errors
  return response.exitCode.toNat.toUInt32
