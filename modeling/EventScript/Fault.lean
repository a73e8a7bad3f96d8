/-! # Faults

A computation on values that breaks off without a diagnostic of its own names the cause here.  A
native function that meets one of the four refusals is reported as failing, with the position of
the call; every other fault passes through the program unchanged.
-/

namespace EventScript

/-- Why a file cannot be read. -/
inductive FileProblem
  | missing
  | directory
  /-- The path leads through a file. -/
  | belowFile
  deriving Repr, DecidableEq

/-- The number of a file problem. -/
def FileProblem.number : FileProblem → Nat
  | missing => 2
  | belowFile => 20
  | directory => 21

/-- The message of a file problem. -/
def FileProblem.message : FileProblem → String
  | missing => "No such file or directory"
  | belowFile => "Not a directory"
  | directory => "Is a directory"

/-- Why a computation on values breaks off. -/
inductive Fault
  /-- An operand or argument is of a kind the operation does not take, or arguments are missing. -/
  | wrongKind
  /-- An operand of the right kind lies outside of the operation's domain. -/
  | wrongValue
  /-- A result is too large for its kind of number. -/
  | overflow
  /-- A divisor is zero. -/
  | zeroDivisor
  /-- A text operation was asked of something that is not a text. -/
  | noMember
  /-- A map was asked for an element by position. -/
  | noEntry
  /-- A map grew or shrank while its keys were visited. -/
  | changedMeanwhile
  /-- A file cannot be read. -/
  | unreadable (path : String) (problem : FileProblem)
  /-- A result is too large to be built. -/
  | outOfMemory
  /-- The host gave up with a message of its own. -/
  | host (message : String)
  deriving Repr, DecidableEq

/-- The faults that a native call reports as an error of the native. -/
def Fault.isRefusal : Fault → Bool
  | wrongKind | wrongValue | overflow | zeroDivisor => true
  | _ => false

end EventScript
