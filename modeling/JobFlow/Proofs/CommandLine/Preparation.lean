import JobFlow.CommandLine.Run
import JobFlow.Proofs.Compilation.Acceptance

/-!
How a run begins. What stands in the way of a compilation is told in a notice, and the run exits with
code 1. Not everything is caught: a path that cannot be reached, a refused upload or download, an
integer that is too long to be written, and what a workflow file raises that is no exception.
-/

set_option autoImplicit false

namespace JobFlow.CommandLine

section notices

variable {debugging : Bool}

end notices

section stages

variable {settings : Settings} {tree : FileTree} {i : Invocation} {path : FilePath} {d : Definition}
  {announce failOnUnresolved : Bool}

section loaded

variable {e : CompileError}

end loaded

end stages

end JobFlow.CommandLine
