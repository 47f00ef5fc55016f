import JobFlow.Text.Digit
import JobFlow.Text.Lines

/-!
What a run tells its user. Each notice has its own stream and layout; debug notices and the details
of a failure appear in debug mode only.
-/

set_option autoImplicit false

namespace JobFlow

structure Output where
  stdout : String := ""
  stderr : String := ""
  deriving DecidableEq, Repr, Inhabited

namespace Output

def append (a b : Output) : Output :=
  ⟨a.stdout ++ b.stdout, a.stderr ++ b.stderr⟩

instance : Append Output :=
  ⟨append⟩

def out (lines : List String) : Output :=
  { stdout := Text.unlines lines }

def err (lines : List String) : Output :=
  { stderr := Text.unlines lines }

end Output

inductive Notice
  | header (title : String)
  | started (workflow : String) (jobs : Int)
  | order (names : List String)
  | stages (groups : List (List String))
  | file (job artifact uploadedPath downloadPath : String)
  | warning (message : String) (details : List String)
  | error (title message : String) (details : List String) (suggestion : String)
  | failure (message : String)
  | success (message : String)
  | info (message : String)
  | debug (message : String)

namespace Notice

/-- Texts with their positions, counted from one. -/
def numbered (texts : List String) : List (String × String) :=
  (texts.zipIdx 1).map fun (text, n) => (Text.ofNat n, text)

/-- The output of a notice. Details stand under their message with two spaces before each, and a
suggestion is set off by an empty line. -/
def output (debugging : Bool) : Notice → Output
  | header title => .out ["", title, String.ofList (List.replicate title.length '-')]
  | started workflow jobs =>
    .out ["", "COMPILE STARTED", "Workflow: " ++ workflow, "Jobs: " ++ Text.ofInt jobs, ""]
  | order names => .out ((numbered names).map fun (n, name) => "  " ++ n ++ ". " ++ name)
  | stages groups =>
    .out ((numbered (groups.map ", ".intercalate)).map fun (n, names) =>
      "  Stage " ++ n ++ ": " ++ names)
  | file job artifact uploadedPath downloadPath =>
    .out ["  [" ++ job ++ "] " ++ artifact ++ ": " ++ uploadedPath ++ " -> " ++ downloadPath]
  | warning message details => .err (("WARNING: " ++ message) :: Text.indentBy "  " details)
  | error title message details suggestion =>
    .err (["", "ERROR: " ++ title, message] ++ Text.indentBy "  " details ++
      if suggestion = "" then [] else ["", suggestion])
  | failure message =>
    .err (if debugging then ["Traceback (most recent call last):", message]
      else ["Error: " ++ message])
  | success message => .out ["STATUS: " ++ message]
  | info message => .out [message]
  | debug message => .err (if debugging then ["[DEBUG] " ++ message] else [])

end Notice

end JobFlow
