import JobFlow.Text.Match
import JobFlow.Text.Numeral
import JobFlow.Text.Quoted
import JobFlow.Mapping

/-!
Settings, and how environment variables change them.
-/

set_option autoImplicit false

namespace JobFlow

structure Settings where
  /-- A condition longer than this is folded over several lines. -/
  maxExpressionLength : Int := 120
  /-- A line of a folded condition ends at the first operator from this length on. -/
  expressionBreakThreshold : Int := 100
  /-- Whether a download may only use artifacts of jobs that its own job needs. -/
  strictArtifacts : Bool := false
  /-- The workflow file looked for first. -/
  defaultWorkflow : String := "lockgraph_workflow.py"
  deriving Repr, Inhabited

namespace Settings

inductive InvalidInteger
  | notAnInteger (value : String)
  | tooLong (digits : Nat)
  deriving DecidableEq, Repr

/-- Shows a value that is no integer in quotes, cut off after two hundred characters. -/
def InvalidInteger.message : InvalidInteger → String
  | notAnInteger value =>
    "invalid literal for int() with base 10: " ++
      String.ofList ((Text.quoted value).toList.take 200)
  | tooLong digits =>
    "Exceeds the limit (" ++ Text.ofNat Text.digitLimit ++
      " digits) for integer string conversion: value has " ++ Text.ofNat digits ++
      " digits; use sys.set_int_max_str_digits() to increase the limit"

/-- The texts that switch a setting on, in any mix of cases. -/
def isAffirmative (s : String) : Bool :=
  String.ofList (s.toList.map Char.toLower) ∈ ["1", "true", "yes"]

/-- An integer variable, or the default when it is not set. -/
def readInteger (environment : Mapping String) (name : String) (default : Int) :
    Except InvalidInteger Int :=
  match environment.find? name with
  | none => .ok default
  | some value =>
    match Text.readInt value with
    | .ok n => .ok n
    | .error .malformed => .error (.notAnInteger value)
    | .error (.tooLong digits) => .error (.tooLong digits)

/-- The settings under an environment. The integers are read in the order of the fields, so the
first faulty one is reported. -/
def ofEnvironment (environment : Mapping String) : Except InvalidInteger Settings := do
  let base : Settings := {}
  let maxLength ←
    readInteger environment "LOCKGRAPH_MAX_EXPRESSION_LINE_LENGTH" base.maxExpressionLength
  let threshold ←
    readInteger environment "LOCKGRAPH_EXPRESSION_BREAK_THRESHOLD" base.expressionBreakThreshold
  return {
    maxExpressionLength := maxLength
    expressionBreakThreshold := threshold
    strictArtifacts := isAffirmative ((environment.find? "LOCKGRAPH_STRICT_ARTIFACTS").getD "")
    defaultWorkflow :=
      (environment.find? "LOCKGRAPH_DEFAULT_WORKFLOW").getD base.defaultWorkflow }

end Settings

end JobFlow
