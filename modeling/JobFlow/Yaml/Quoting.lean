import JobFlow.Text.Blank
import JobFlow.Text.Match

/-!
One-line scalars. A text that would not be read back as itself is put in single quotes, inside
which a quote is written twice; every other text stands as it is.
-/

set_option autoImplicit false

namespace JobFlow.Yaml

/-- The characters that mean something else than text at the start of a scalar. -/
def indicators : List Char :=
  "*&!|>'\"%@[]\x7b\x7d,#?:-\x60".toList

/-- Whether a text needs quotes: it is empty, starts with an indicator, ends with a colon, has
outer blanks, or holds the start of a value or of a comment. -/
def needsQuotes (cs : List Char) : Bool :=
  match cs with
  | [] => true
  | first :: _ =>
    indicators.contains first || [':'].isSuffixOf cs || Text.trim cs != cs ||
      Text.hasRun [':', ' '] cs || Text.hasRun [' ', '#'] cs

def doubleQuotes (cs : List Char) : List Char :=
  cs.flatMap fun c => if c = '\'' then ['\'', '\''] else [c]

def scalarChars (cs : List Char) : List Char :=
  if needsQuotes cs then '\'' :: doubleQuotes cs ++ ['\''] else cs

def scalar (s : String) : String :=
  String.ofList (scalarChars s.toList)

theorem toList_scalar (s : String) : (scalar s).toList = scalarChars s.toList :=
  String.toList_ofList

end JobFlow.Yaml
