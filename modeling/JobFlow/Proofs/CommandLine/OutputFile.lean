import JobFlow.Proofs.CommandLine.Preparation
import JobFlow.Proofs.FileTree.Writing
import JobFlow.Proofs.Text.Control

/-!
What a run leaves behind. Only `compile` writes a file, and what it writes is the compiled text as it is,
with none of its notices in between. A run that fails leaves all files as they were, but for the one
failure that comes too late: a file is emptied before the text that cannot be encoded is refused.
-/

set_option autoImplicit false

namespace JobFlow.CommandLine

variable {settings : Settings} {platform : Platform} {tree : FileTree} {i : Invocation}
  {c : Compilation} {debugging : Bool}

section streams

end streams

section emits

end emits

section runs

end runs

end JobFlow.CommandLine
