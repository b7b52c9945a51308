/-!
# Switches

How the arguments of a command line are told apart: switches, their values, and the rest.
A switch may be written out or, some of them, as a letter; letters may be put together, and
the last one may take a value.  What looks like a switch and is none belongs to the rest, so
that an expression may start with a minus.
-/

namespace ArithAsm.CommandLine

/-- The switches. -/
inductive Switch where
  | mode
  | output
  | comments
  | entry
  | run
  | verbose
  | version
  | help
deriving DecidableEq, Inhabited

namespace Switch

/-- Every switch, in the order in which they are listed. -/
def all : List Switch := [mode, output, comments, entry, run, verbose, version, help]

def name : Switch → String
  | mode => "--mode"
  | output => "--output"
  | comments => "--comments"
  | entry => "--entry"
  | run => "--run"
  | verbose => "--verbose"
  | version => "--version"
  | help => "--help"

def ofName? (text : String) : Option Switch :=
  all.find? fun s => s.name = text

def ofLetter? : Char → Option Switch
  | 'o' => some output
  | 'v' => some verbose
  | _ => none

def takesValue : Switch → Bool
  | mode => true
  | output => true
  | entry => true
  | _ => false

/-- Whether a switch is answered before all others. -/
def isEager : Switch → Bool
  | version => true
  | help => true
  | _ => false

end Switch

/-- A mistake in the use of the command line. -/
inductive UsageFault where
  /-- A switch, as it was written, lacks its value. -/
  | valueMissing (name : String)
  /-- A switch has a value and should not. -/
  | valueUnwanted (name : String)
  /-- There is no such mode. -/
  | noSuchMode (value : String)
  /-- The output file is a directory. -/
  | outputIsDirectory (value : String)
  /-- There is no expression. -/
  | nothingToDo
  /-- There are arguments behind the expression. -/
  | tooMany (extra : List String)
deriving DecidableEq, Inhabited

/-- Arguments told apart: the switches with their values in the order given, those without a
value having an empty one, and the rest. -/
structure Arguments where
  switches : List (Switch × String) := []
  rest : List String := []
deriving DecidableEq, Inhabited

namespace Arguments

def give (arguments : Arguments) (s : Switch) (value : String) : Arguments :=
  { arguments with switches := arguments.switches ++ [(s, value)] }

def leave (arguments : Arguments) (texts : List String) : Arguments :=
  { arguments with rest := arguments.rest ++ texts }

def has (arguments : Arguments) (s : Switch) : Bool :=
  arguments.switches.any fun given => given.1 = s

/-- The value of a switch where it is given last. -/
def last? (arguments : Arguments) (s : Switch) : Option String :=
  arguments.switches.reverse.lookup s

/-- The switches given, in the order in which each was given first. -/
def order (arguments : Arguments) : List Switch :=
  (arguments.switches.map (·.1)).eraseDups

end Arguments

/-- Letters put together: the switches among them, the letters that stand for nothing, and the
switch at the end that still needs a value. -/
structure Letters where
  switches : List (Switch × String) := []
  unknown : List Char := []
  wanting : Option (Switch × Char) := none
deriving DecidableEq, Inhabited

/-- Tells letters apart.  What follows a switch with a value is its value. -/
def Letters.read : List Char → Letters
  | [] => {}
  | c :: rest =>
      match Switch.ofLetter? c with
      | none =>
          let letters := Letters.read rest
          { letters with unknown := c :: letters.unknown }
      | some s =>
          if !s.takesValue then
            let letters := Letters.read rest
            { letters with switches := (s, "") :: letters.switches }
          else if rest.isEmpty then { wanting := some (s, c) }
          else { switches := [(s, String.ofList rest)] }

/-- The name and the value in a switch that is written out, the value after an equals sign. -/
def splitEquals (text : List Char) : String × Option String :=
  let name := text.takeWhile (· ≠ '=')
  match text.dropWhile (· ≠ '=') with
  | [] => (String.ofList name, none)
  | _ :: value => (String.ofList name, some (String.ofList value))

/-- What one argument is. -/
inductive Argument where
  /-- The end of the switches. -/
  | separator
  | plain
  | long (s : Switch) (value : Option String)
  | short (letters : Letters)
deriving DecidableEq

/-- Tells what an argument is.  Two hyphens before an unknown name make it plain, and so does a
hyphen on its own. -/
def Argument.ofText (text : String) : Argument :=
  match text.toList with
  | ['-', '-'] => .separator
  | '-' :: letter :: letters =>
      let (name, value) := splitEquals text.toList
      match Switch.ofName? name with
      | some s => .long s value
      | none => if letter = '-' then .plain else .short (Letters.read (letter :: letters))
  | _ => .plain

/-- Adds letters to the arguments, the value of the last one given separately. -/
def Arguments.addLetters (arguments : Arguments) (letters : Letters)
    (value : Option (Switch × String)) : Arguments :=
  let given := { arguments with
    switches := arguments.switches ++ letters.switches ++ value.toList }
  if letters.unknown.isEmpty then given
  else given.leave [String.ofList ('-' :: letters.unknown)]

def Arguments.readFrom : Arguments → List String → Except UsageFault Arguments
  | done, [] => .ok done
  | done, text :: rest =>
      match Argument.ofText text with
      | .separator => .ok (done.leave rest)
      | .plain => readFrom (done.leave [text]) rest
      | .long s (some value) =>
          if s.takesValue then readFrom (done.give s value) rest
          else .error (.valueUnwanted s.name)
      | .long s none =>
          if s.takesValue then
            match rest with
            | [] => .error (.valueMissing s.name)
            | value :: rest => readFrom (done.give s value) rest
          else readFrom (done.give s "") rest
      | .short letters =>
          match letters.wanting with
          | none => readFrom (done.addLetters letters none) rest
          | some (s, c) =>
              match rest with
              | [] => .error (.valueMissing (String.ofList ['-', c]))
              | value :: rest => readFrom (done.addLetters letters (some (s, value))) rest

def Arguments.read (texts : List String) : Except UsageFault Arguments :=
  readFrom {} texts

end ArithAsm.CommandLine
