import ArithAsm.CommandLine.Switch
import ArithAsm.Workspace

/-!
# Requests

What a command line asks for, once its values are checked.  Values are checked in the order
in which their switches were given; only then are missing and superfluous arguments noticed.
-/

namespace ArithAsm.CommandLine

/-- How far an expression is processed. -/
inductive Mode where
  /-- Tokens, listed. -/
  | token
  /-- The tree, as an outline. -/
  | ast
  /-- The tree, as a diagram. -/
  | dot
  /-- A program. -/
  | x86
deriving DecidableEq, Inhabited

namespace Mode

/-- Every mode, in the order in which they are listed. -/
def all : List Mode := [token, ast, dot, x86]

def name : Mode → String
  | token => "token"
  | ast => "ast"
  | dot => "dot"
  | x86 => "x86"

/-- The lower-case form of a character, as far as the names of modes need it: of ASCII letters,
and of the letters beyond that fold to them. -/
def foldCase (c : Char) : List Char :=
  if c = '\u017f' then ['s']
  else if c = '\u212a' then ['k']
  else if c = '\ufb05' || c = '\ufb06' then ['s', 't']
  else [c.toLower]

def ofText? (text : String) : Option Mode :=
  let folded := String.ofList (text.toList.flatMap foldCase)
  all.find? fun mode => mode.name = folded

end Mode

/-- Something to be done with an expression. -/
structure Request where
  expression : String
  mode : Mode := .x86
  output : Option Path := none
  remarks : Bool := false
  entry : String := "main"
  run : Bool := false
  verbose : Bool := false
deriving DecidableEq, Inhabited

/-- What a command line asks for. -/
inductive Intent where
  | showHelp
  | showVersion
  | process (request : Request)
deriving DecidableEq, Inhabited

def modeOf (arguments : Arguments) : Except UsageFault Mode :=
  match arguments.last? .mode with
  | none => .ok .x86
  | some value =>
      match Mode.ofText? value with
      | some mode => .ok mode
      | none => .error (.noSuchMode value)

/-- The output file asked for.  It must not be a directory; a name that stands for nothing is
left to be found unusable later. -/
def outputOf (workspace : Workspace) (arguments : Arguments) :
    Except UsageFault (Option Path) :=
  match arguments.last? .output with
  | none => .ok none
  | some value =>
      if workspace.namesDirectory value then .error (.outputIsDirectory value)
      else .ok (some (.ofText value))

def check (workspace : Workspace) (arguments : Arguments) : Switch → Except UsageFault Unit
  | .mode => (modeOf arguments).map fun _ => ()
  | .output => (outputOf workspace arguments).map fun _ => ()
  | _ => .ok ()

/-- The expression, which is the rest of the arguments. -/
def expressionOf (arguments : Arguments) : Except UsageFault String :=
  match arguments.rest with
  | [] => .error .nothingToDo
  | [expression] => .ok expression
  | _ :: extra => .error (.tooMany extra)

def requestOf (workspace : Workspace) (arguments : Arguments) : Except UsageFault Request := do
  arguments.order.forM (check workspace arguments)
  return {
    expression := ← expressionOf arguments
    mode := ← modeOf arguments
    output := ← outputOf workspace arguments
    remarks := arguments.has .comments
    entry := (arguments.last? .entry).getD "main"
    run := arguments.has .run
    verbose := arguments.has .verbose }

def Intent.ofArguments (workspace : Workspace) (texts : List String) :
    Except UsageFault Intent := do
  let arguments ← Arguments.read texts
  match arguments.order.find? Switch.isEager with
  | some .help => return .showHelp
  | some _ => return .showVersion
  | none => return .process (← requestOf workspace arguments)

end ArithAsm.CommandLine
