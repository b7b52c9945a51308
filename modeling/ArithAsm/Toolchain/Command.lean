import ArithAsm.Decimal.Binary64
import ArithAsm.Failure

/-!
# Commands

External commands are not modelled: how each one ends is given.  What is seen of an ending depends
on the command, too.  A system that heeds time limits stops a command whose limit is over when it
starts, and cannot wait at all for one whose limit is too long or no number; and an output that is
to be read as text must be one.
-/

namespace ArithAsm

/-- A command that was started. -/
structure Command where
  words : List String
  timeout : Binary64
  /-- Whether its output is read as text. -/
  asText : Bool
deriving DecidableEq, Inhabited

/-- What a command writes. -/
inductive Output where
  /-- Text, of which this is the part on the error output. -/
  | text (errors : String)
  /-- Something that cannot be read as text, for this reason. -/
  | garbled (reason : String)
deriving DecidableEq, Inhabited

instance : Coe String Output := ⟨.text⟩

def Output.read : Output → Except Failure String
  | text errors => .ok errors
  | garbled reason => .error (.badValue reason)

/-- How a command ends. -/
inductive Ending (α : Type) where
  /-- With a status, after writing something. -/
  | exit (status : Int) (output : α)
  /-- It is stopped at the time limit. -/
  | timedOut
  /-- It cannot be started. -/
  | refused (code : Int) (reason : String)
deriving DecidableEq, Inhabited

namespace Binary64

/-- The milliseconds in `mantissa * 2 ^ exponent` seconds, rounded up. -/
def milliseconds (mantissa : Nat) (exponent : Int) : Nat :=
  let den := 1 <<< (-exponent).toNat
  (((1000 * mantissa) <<< exponent.toNat) + (den - 1)) / den

/-- Whether there is any time in a limit. -/
def isPositive : Binary64 → Bool
  | notANumber => false
  | infinite negative => !negative
  | finite negative mantissa _ => !negative && mantissa ≠ 0

/-- The most milliseconds that a time can have. -/
def maxTime : Nat := 9223372036854

/-- Why a system that waits for so many milliseconds at the longest cannot wait up to a limit. -/
def waitFault? (longest : Nat) : Binary64 → Option Failure
  | notANumber => some (.badValue "cannot convert float NaN to integer")
  | infinite true => none
  | infinite false => some (.overflow "cannot convert float infinity to integer")
  | finite true _ _ => none
  | finite false mantissa exponent =>
      let time := milliseconds mantissa exponent
      if time ≤ longest then none
      else if time ≤ maxTime then some (.overflow "timeout is too large")
      else some (.overflow "timestamp too large to convert to C _PyTime_t")

end Binary64

namespace Command

/-- What the time limit makes of an ending, where the system heeds it. -/
def awaited (command : Command) (longestWait : Option Nat) (ending : Ending Output) :
    Except Failure (Ending Output) :=
  match longestWait with
  | none => .ok ending
  | some longest =>
      match command.timeout.waitFault? longest with
      | some failure => .error failure
      | none => .ok (if command.timeout.isPositive then ending else .timedOut)

/-- An ending with what is read of the output. -/
def reading (command : Command) : Ending Output → Except Failure (Ending String)
  | .exit status output =>
      if command.asText then output.read.map (.exit status) else .ok (.exit status "")
  | .timedOut => .ok .timedOut
  | .refused code reason => .ok (.refused code reason)

/-- What is seen of an ending.  Only a command that can be started is waited for. -/
def outcome (command : Command) (longestWait : Option Nat) :
    Ending Output → Except Failure (Ending String)
  | .refused code reason => .ok (.refused code reason)
  | ending => (command.awaited longestWait ending).bind command.reading

end Command

end ArithAsm
