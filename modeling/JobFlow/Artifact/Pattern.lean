/-!
Patterns for artifact names. A star stands for any text, in three shapes only: at the start, at
the end, or alone in the middle. In every other pattern the stars are ordinary characters.
-/

set_option autoImplicit false

namespace JobFlow.Artifact.Pattern

/-- Whether the characters of a name match those of a pattern. A star at the start is taken as the
star even when others follow, and then a star at the end. -/
def accepts (pattern name : List Char) : Bool :=
  if '*' ∉ pattern then name == pattern
  else if pattern.head? = some '*' then pattern.tail.isSuffixOf name
  else if pattern.getLast? = some '*' then pattern.dropLast.isPrefixOf name
  else
    match pattern.splitOn '*' with
    | [start, ending] =>
      start.isPrefixOf name && ending.isSuffixOf name &&
        start.length + ending.length ≤ name.length
    | _ => name == pattern

end JobFlow.Artifact.Pattern

namespace JobFlow.Artifact

def matchesPattern (pattern name : String) : Bool :=
  Pattern.accepts pattern.toList name.toList

end JobFlow.Artifact
