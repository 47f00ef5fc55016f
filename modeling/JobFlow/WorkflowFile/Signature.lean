import JobFlow.Text.Quoted
import JobFlow.WorkflowFile.Token

/-!
Signatures of workflow functions. A workflow function is called without arguments, so what matters
of a signature is which parameters have no default.
-/

set_option autoImplicit false

namespace JobFlow.WorkflowFile

/-- The parameters that a call has to give: by position, or by keyword only. -/
structure Signature where
  positional : List String := []
  keywordOnly : List String := []
  deriving DecidableEq, Repr

namespace Signature

/-- The name of a parameter without default, star or type; a lone sign is none. -/
def requiredName? : List Token → Option String
  | .word name :: rest => if rest.contains .equals then none else some name
  | _ => none

def closesPositional (parameter : List Token) : Bool :=
  parameter.head? == some .star

def ofParameters (written : String) : Signature :=
  let parameters := (Token.outermost [0] (Token.ofCharacters written.toList)).splitOn .comma
  ⟨(parameters.takeWhile (!closesPositional ·)).filterMap requiredName?,
    (parameters.dropWhile (!closesPositional ·)).filterMap requiredName?⟩

/-- Quoted names in a row, with an `and` before the last. -/
def enumerate : List String → String
  | [] => ""
  | [name] => Text.quoted name
  | [first, second] => Text.quoted first ++ " and " ++ Text.quoted second
  | names =>
    ", ".intercalate (names.dropLast.map Text.quoted) ++ ", and " ++
      Text.quoted (names.getLastD "")

def missing (kind : String) (names : List String) : String :=
  "workflow() missing " ++ Text.ofNat names.length ++ " required " ++ kind ++ " argument" ++
    (if names.length = 1 then "" else "s") ++ ": " ++ enumerate names

/-- What is wrong with a call without arguments; missing positional arguments come first. -/
def complaint? (s : Signature) : Option String :=
  if !s.positional.isEmpty then some (missing "positional" s.positional)
  else if !s.keywordOnly.isEmpty then some (missing "keyword-only" s.keywordOnly)
  else none

end Signature

end JobFlow.WorkflowFile
