import JobFlow.Mapping
import JobFlow.RunnerPath.Basic

/-!
What several paths share, and where each of them sits below that. An uploaded artifact keeps the
directories below the deepest one that all its files share.
-/

set_option autoImplicit false

namespace JobFlow.RunnerPath

def sharedStart : List String → List String → List String
  | a :: as, b :: bs => if a = b then a :: sharedStart as bs else []
  | _, _ => []

/-- The deepest directory shared by all paths. One path gives the directory that holds it. Several
paths give none when not even the first segments agree; the last segment of a path is never part
of the answer, and the first path decides whether it is absolute. -/
def sharedParent? : List RunnerPath → Option RunnerPath
  | [] => none
  | [p] => some p.parent
  | p :: rest =>
    match rest.foldl (fun shared q => sharedStart shared q.parent.segments) p.parent.segments with
    | [] => none
    | shared => some ⟨p.absolute, shared⟩

/-- The text of the shared directory, empty when there is none. -/
def commonParent (paths : List String) : String :=
  ((sharedParent? (paths.map ofString)).map toString).getD ""

def below? (directory p : RunnerPath) : Option String :=
  if p.absolute = directory.absolute ∧ directory.segments <+: p.segments then
    some (RunnerPath.mk false (p.segments.drop directory.segments.length)).toString
  else none

/-- The place of a path inside an artifact whose files share a directory: below it, or the bare
file name when the path is not below it or nothing is shared. -/
def place (directory : Option RunnerPath) (p : RunnerPath) : String :=
  ((directory.bind fun d => below? d p).getD p.name)

/-- Maps every path, in its simplest form, to its place inside the artifact. A single path keeps
only its name. -/
def places (paths : List String) : Mapping String :=
  match paths.map ofString with
  | [] => .empty
  | [p] => .ofList [(p.toString, p.name)]
  | ps =>
    let directory := sharedParent? ps
    .ofList (ps.map fun p => (p.toString, place directory p))

end JobFlow.RunnerPath
