import JobFlow.Compilation
import JobFlow.FilePath
import JobFlow.WorkflowFile.Basic

/-!
How runs end, and their exit codes.
-/

set_option autoImplicit false

namespace JobFlow.CommandLine

/-- Faults that a run does not turn into a notice. -/
inductive Uncaught
  | upload (error : InvalidUpload)
  | download (error : InvalidDownload)
  | render (error : RenderError)
  | file (error : FileError)
  /-- A path that is given as an option holds the character that ends paths. -/
  | optionCutShort
  /-- A text that the encoding of files cannot hold. -/
  | encoding (message : String)
  | interruption (kind message : String)
  deriving DecidableEq, Repr

def Uncaught.message : Uncaught → String
  | upload error => error.message
  | download error => error.message
  | render error => error.message
  | file error => error.message
  | optionCutShort => "embedded null byte"
  | encoding message => message
  | interruption _ message => message

inductive Ending
  | exit (code : Nat)
  | usageError
  /-- The workflow file ends the program itself, with a message at the end of the run. -/
  | quit (code : UInt8) (message : Option String)
  | uncaught (error : Uncaught)
  deriving DecidableEq, Repr

def Ending.code : Ending → Nat
  | exit code => code
  | usageError => 2
  | quit code _ => code.toNat
  | uncaught _ => 1

end JobFlow.CommandLine
