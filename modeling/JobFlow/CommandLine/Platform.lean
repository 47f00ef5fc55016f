import JobFlow.CommandLine.Arguments
import JobFlow.CommandLine.Ending
import JobFlow.Console
import JobFlow.FileTree
import JobFlow.Text.Control

/-!
What a run gets from outside: its arguments are read and its result is printed by a library, and the
system has an encoding for files. A run takes these as parameters. The conventional platform is one
that behaves as such libraries do, away from a terminal and with an encoding for all characters.
-/

set_option autoImplicit false

namespace JobFlow.CommandLine

/-- What arguments come to: a command to carry out, or the end of the run. -/
inductive Reading
  | invocation (i : Invocation)
  | ends (ending : Ending) (output : Output)
  deriving DecidableEq

structure Platform where
  /-- Reads the arguments. The output path is looked at while it is read. -/
  read : FileTree → List String → Reading
  /-- What is printed of a result on standard output. -/
  echo : String → String
  toTerminal : Bool
  /-- Why a text cannot be encoded in a file, if it cannot. -/
  encodingFault? : String → Option String

namespace Platform

/-- What is read into the invocation of a command. Help comes first; then the output path is looked at,
and then the arguments left over are refused. The text of the help is left out. -/
def finishReading (tree : FileTree) (parsed : Parsed) : Reading :=
  if parsed.asksForHelp then .ends (.exit 0) {}
  else if FilePath.isCutShort parsed.invocation.output then .ends (.uncaught .optionCutShort) {}
  else if tree.isDirectoryPath parsed.invocation.output || !parsed.leftover.isEmpty then
    .ends .usageError {}
  else .invocation parsed.invocation

def readConventionally (tree : FileTree) (arguments : List String) : Reading :=
  match readCommon false false arguments with
  | none => .ends .usageError {}
  | some (_, true, _) => .ends (.exit 0) {}
  | some (debugging, false, rest) =>
    match readCommand debugging rest with
    | some parsed => finishReading tree parsed
    | none => .ends .usageError {}

def conventional : Platform where
  read := readConventionally
  echo := Text.withoutControls
  toTerminal := false
  encodingFault? _ := none

end Platform

end JobFlow.CommandLine
