import JobFlow.Text.Lines
import JobFlow.Text.Match

/-!
Paths on a runner. Slashes separate segments whatever the host, so a path is the fact that it is
absolute or relative, and a list of segments in which nothing is left to simplify.
-/

set_option autoImplicit false

namespace JobFlow

/-- A simplified path. The root and the current directory have no segments. -/
structure RunnerPath where
  absolute : Bool
  segments : List String
  deriving DecidableEq, Repr, Inhabited

namespace RunnerPath

/-- Adds one written segment to the simplified ones, which are given innermost first. Empty
segments and dots change nothing. Two dots leave a directory; above the root there is nothing to
leave, and above a relative path the dots stay. -/
def enter (absolute : Bool) (inner : List String) (segment : String) : List String :=
  if segment = "" ∨ segment = "." then inner
  else if segment = ".." then
    match inner with
    | [] => if absolute then [] else [".."]
    | last :: outer => if last = ".." then ".." :: inner else outer
  else segment :: inner

def simplify (absolute : Bool) (written : List String) : List String :=
  (written.foldl (enter absolute) []).reverse

/-- Reads a path. Any number of slashes at the start make it absolute. -/
def ofString (s : String) : RunnerPath :=
  let absolute := Text.startsWith s "/"
  ⟨absolute, simplify absolute (Text.pieces '/' s)⟩

/-- Writes a path; without segments it is the root or the current directory. -/
def toString (p : RunnerPath) : String :=
  if p.absolute then "/" ++ "/".intercalate p.segments
  else if p.segments.isEmpty then "." else "/".intercalate p.segments

/-- The directory that holds the path. The root holds itself. -/
def parent (p : RunnerPath) : RunnerPath :=
  ⟨p.absolute, p.segments.dropLast⟩

/-- The last segment; for the root and the current directory, their own text. -/
def name (p : RunnerPath) : String :=
  p.segments.getLastD p.toString

def clean (s : String) : String :=
  (ofString s).toString

/-- Puts a slash between the parts that are not empty, and simplifies. -/
def join (parts : List String) : String :=
  match parts.filter (· ≠ "") with
  | [] => ""
  | present => clean ("/".intercalate present)

end RunnerPath

end JobFlow
