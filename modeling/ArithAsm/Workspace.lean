import ArithAsm.Path
import ArithAsm.Text.Quoted

/-!
# Workspaces

Directories and files as they are seen from a working directory, and the three things that are
done to them: a look at what a name stands for, a new directory, a new content for a file.  A
workspace keeps its entries in the order in which they were made.
-/

namespace ArithAsm

/-- A refusal of the operating system: its number, its reason, and the file it concerns. -/
structure SystemFault where
  code : Int
  reason : String
  file : Option String := none
deriving DecidableEq, Inhabited

namespace SystemFault

def message (fault : SystemFault) : String :=
  let about := match fault.file with
    | some file => ": " ++ Text.quoted file
    | none => ""
  s!"[Errno {fault.code}] {fault.reason}{about}"

def missing (file : String) : SystemFault := ⟨2, "No such file or directory", some file⟩

def taken (file : String) : SystemFault := ⟨17, "File exists", some file⟩

def notDirectory (file : String) : SystemFault := ⟨20, "Not a directory", some file⟩

def isDirectory (file : String) : SystemFault := ⟨21, "Is a directory", some file⟩

def tooLong (file : String) : SystemFault := ⟨36, "File name too long", some file⟩

end SystemFault

/-- What a name stands for. -/
inductive Entry where
  | directory
  | file (content : String)
deriving DecidableEq, Inhabited

/-- The files and directories there are, each under its names from the root, and the names that
lead to the working directory.  The directories on that way need no entries, and neither does the
null device with its directory. -/
structure Workspace where
  home : List String := []
  entries : List (List String × Entry) := []
  /-- The places where the system refuses a file or a new directory whatever the entries are, for
  want of a right or on a device that takes nothing, and how it refuses. -/
  barred : List (List String × SystemFault) := []
deriving DecidableEq, Inhabited

def maxNameBytes : Nat := 255

def maxPathBytes : Nat := 4095

namespace Workspace

/-- The place of the null device, which every system has. -/
def nullDevice : List String := ["dev", "null"]

/-- What stands at a place.  The null device is like a file that is always empty. -/
def find? (workspace : Workspace) (place : List String) : Option Entry :=
  if place.isPrefixOf workspace.home || place.isPrefixOf nullDevice.dropLast then some .directory
  else if place = nullDevice then some (.file "")
  else (workspace.entries.find? fun entry => entry.1 = place).map (·.2)

/-- Gives a place another entry, or a new place an entry behind all others. -/
def put (workspace : Workspace) (place : List String) (entry : Entry) : Workspace :=
  if workspace.entries.any fun old => old.1 = place then
    { workspace with
      entries := workspace.entries.map fun old => if old.1 = place then (place, entry) else old }
  else { workspace with entries := workspace.entries ++ [(place, entry)] }

/-- Walks along names from a place and tells where it ends.  Each name but the last must stand for
a directory. -/
def walk (workspace : Workspace) (file : String) :
    List String → List String → Except SystemFault (List String × Entry)
  | here, [] => .ok (here, .directory)
  | here, name :: rest =>
      if name = ".." then workspace.walk file here.dropLast rest
      else if name.utf8ByteSize > maxNameBytes then .error (.tooLong file)
      else
        match workspace.find? (here ++ [name]) with
        | none => .error (.missing file)
        | some .directory => workspace.walk file (here ++ [name]) rest
        | some (.file content) =>
            if rest.isEmpty then .ok (here ++ [name], .file content)
            else .error (.notDirectory file)

/-- Where a path starts. -/
def origin (workspace : Workspace) (path : Path) : List String :=
  if path.anchor = .here then workspace.home else []

def look (workspace : Workspace) (path : Path) : Except SystemFault (List String × Entry) :=
  if path.text.utf8ByteSize > maxPathBytes then .error (.tooLong path.text)
  else workspace.walk path.text (workspace.origin path) path.parts

def isDirectory (workspace : Workspace) (path : Path) : Bool :=
  match workspace.look path with
  | .ok (_, .directory) => true
  | _ => false

/-- Whether a text stands for a directory just as it is written.  No directory has the empty name,
and the limit on the bytes of a path concerns what is written, slashes and dots that say nothing
included. -/
def namesDirectory (workspace : Workspace) (text : String) : Bool :=
  text ≠ "" && text.utf8ByteSize ≤ maxPathBytes && workspace.isDirectory (.ofText text)

/-- The place that a path names for something new or old in an existing directory. -/
def target (workspace : Workspace) (path : Path) (name : String) :
    Except SystemFault (List String × Option Entry) :=
  if path.text.utf8ByteSize > maxPathBytes then .error (.tooLong path.text)
  else
    match workspace.walk path.text (workspace.origin path) path.parts.dropLast with
    | .error fault => .error fault
    | .ok (_, .file _) => .error (.notDirectory path.text)
    | .ok (here, .directory) =>
        if name.utf8ByteSize > maxNameBytes then .error (.tooLong path.text)
        else .ok (here ++ [name], workspace.find? (here ++ [name]))

/-- The refusal at the place that a path names, if it is a barred one.  That a directory stands
there is noticed before. -/
def barrier? (workspace : Workspace) (path : Path) : Option SystemFault :=
  if workspace.isDirectory path then none
  else
    (workspace.barred.lookup (path.resolve workspace.home).parts).map fun fault =>
      { fault with file := some path.text }

/-- Stores a text under a path.  An existing file loses its content, and the null device keeps none.
Every text can be encoded, so a file that can be opened is written. -/
def store (workspace : Workspace) (path : Path) (content : String) :
    Except SystemFault Workspace :=
  match workspace.barrier? path, path.parts.getLast? with
  | some fault, _ => .error fault
  | none, none => .error (.isDirectory path.text)
  | none, some ".." =>
      match workspace.look path with
      | .ok _ => .error (.isDirectory path.text)
      | .error fault => .error fault
  | none, some name =>
      match workspace.target path name with
      | .error fault => .error fault
      | .ok (_, some .directory) => .error (.isDirectory path.text)
      | .ok (place, _) =>
          .ok (if place = nullDevice then workspace else workspace.put place (.file content))

def makeOne (workspace : Workspace) (path : Path) : Except SystemFault Workspace :=
  match workspace.barrier? path, path.parts.getLast? with
  | some fault, _ => .error fault
  | none, none => .error (.taken path.text)
  | none, some ".." =>
      match workspace.look path with
      | .ok _ => .error (.taken path.text)
      | .error fault => .error fault
  | none, some name =>
      match workspace.target path name with
      | .error fault => .error fault
      | .ok (_, some _) => .error (.taken path.text)
      | .ok (place, none) => .ok (workspace.put place .directory)

/-- Makes one directory unless it is there already. -/
def ensureOne (workspace : Workspace) (path : Path) : Workspace × Option SystemFault :=
  match workspace.makeOne path with
  | .ok made => (made, none)
  | .error fault => (workspace, if workspace.isDirectory path then none else some fault)

/-- Makes a directory together with those above it, given by the names in reverse.  Directories
that are there already do not matter.  What was made before a refusal stays. -/
def ensureParts (workspace : Workspace) (anchor : Anchor) :
    List String → Workspace × Option SystemFault
  | [] => workspace.ensureOne { anchor, parts := [] }
  | name :: above =>
      let path : Path := { anchor, parts := (name :: above).reverse }
      match workspace.makeOne path with
      | .error fault =>
          if fault.code = 2 then
            match workspace.ensureParts anchor above with
            | (made, none) => made.ensureOne path
            | (made, some fault) => (made, some fault)
          else workspace.ensureOne path
      | .ok made => (made, none)

/-- Makes a directory together with those above it. -/
def ensure (workspace : Workspace) (path : Path) : Workspace × Option SystemFault :=
  workspace.ensureParts path.anchor path.parts.reverse

end Workspace

end ArithAsm
