/-!
# Paths

Names of files and directories.  A path is kept in parts; empty parts and the part `.` say
nothing and are dropped when a path is read, whereas `..` is kept.
-/

namespace ArithAsm

/-- Where a path starts. -/
inductive Anchor where
  /-- At the working directory. -/
  | here
  | root
  /-- At the place that two leading slashes stand for. -/
  | doubleRoot
deriving DecidableEq, Inhabited

def Anchor.text : Anchor → String
  | here => ""
  | root => "/"
  | doubleRoot => "//"

/-- A path: where it starts, and the names from there. -/
structure Path where
  anchor : Anchor := .here
  parts : List String
deriving DecidableEq, Inhabited

namespace Path

def splitSlashes : List Char → List (List Char)
  | [] => [[]]
  | c :: rest =>
      if c = '/' then [] :: splitSlashes rest
      else
        match splitSlashes rest with
        | [] => [[c]]
        | piece :: more => (c :: piece) :: more

def namesIn (text : String) : List String :=
  ((splitSlashes text.toList).map String.ofList).filter fun name => name ≠ "" && name ≠ "."

/-- Reads a path.  One leading slash, or more than two, start at the root; exactly two start at
a place of their own. -/
def ofText (text : String) : Path :=
  let slashes := (text.toList.takeWhile (· = '/')).length
  let anchor := if slashes = 0 then Anchor.here else if slashes = 2 then .doubleRoot else .root
  { anchor, parts := namesIn text }

/-- A path as it is written.  The empty relative path is `.`. -/
def text (path : Path) : String :=
  match path.anchor, path.parts with
  | .here, [] => "."
  | anchor, parts => anchor.text ++ "/".intercalate parts

def name (path : Path) : String :=
  path.parts.getLast?.getD ""

def parent (path : Path) : Path :=
  { path with parts := path.parts.dropLast }

def join (path : Path) (name : String) : Path :=
  { path with parts := path.parts ++ [name] }

/-- The part of a name before its suffix.  A suffix starts at the last dot, which is neither the
first nor the last character. -/
def stem (name : List Char) : List Char :=
  let after := (name.reverse.takeWhile (· ≠ '.')).length
  let before := name.length - after - 1
  if 0 < after ∧ after < name.length ∧ 0 < before then name.take before else name

/-- The path with another suffix in place of the last one.  A path without a name has no such
neighbour. -/
def withSuffix? (suffix : String) (path : Path) : Option Path :=
  if path.name.isEmpty then none
  else some (path.parent.join (String.ofList (stem path.name.toList) ++ suffix))

/-- Goes along names from a place.  The name `..` leads up; at the top it has no effect. -/
def climbFrom (start parts : List String) : List String :=
  parts.foldl (fun here name => if name = ".." then here.dropLast else here ++ [name]) start

/-- The full path, given the names that lead to the working directory. -/
def resolve (home : List String) (path : Path) : Path :=
  match path.anchor with
  | .here => { anchor := .root, parts := climbFrom home path.parts }
  | _ => { anchor := .root, parts := climbFrom [] path.parts }

/-- A path as seen from a directory that it leads through. -/
def below? (directory path : Path) : Option Path :=
  if path.anchor = directory.anchor ∧ directory.parts.isPrefixOf path.parts then
    some { parts := path.parts.drop directory.parts.length }
  else none

end Path

end ArithAsm
