import JobFlow.Mapping
import JobFlow.Scalar
import JobFlow.Text.Lines
import JobFlow.Yaml.Quoting

/-!
Fields of a block mapping, as lines without their line feeds: a key with a scalar behind it, with
a literal block under it, or with a mapping under it.
-/

set_option autoImplicit false

namespace JobFlow.Yaml

/-- `key: value`, the value as it stands. -/
def entry (indent key value : String) : String :=
  indent ++ key ++ ": " ++ value

/-- `key:`, with nothing behind it. -/
def header (indent key : String) : String :=
  indent ++ key ++ ":"

/-- A value of any text. One line becomes a scalar. Several lines become a literal block, indented
by two more spaces, without the line feeds at the end of the value. -/
def valueField (indent key value : String) : List String :=
  if Text.isMultiline value then
    let body := String.ofList (Text.trimEndWhile (· == '\n') value.toList)
    entry indent key "|" :: Text.indentBy (indent ++ "  ") (Text.lines body)
  else [entry indent key (scalar value)]

/-- A mapping whose values may have several lines, in increasing order of the keys. -/
def blockMapping (indent key : String) (values : Mapping Scalar) : List String :=
  header indent key ::
    values.sorted.flatMap fun (k, value) => valueField (indent ++ "  ") k value.plain

/-- A mapping with one line for each key, in increasing order of the keys. -/
def lineMapping (indent key : String) (values : Mapping Scalar) : List String :=
  header indent key ::
    values.sorted.map fun (k, value) => entry (indent ++ "  ") k (scalar value.plain)

def startsName (c : Char) : Bool :=
  ('A' ≤ c && c ≤ 'Z') || ('a' ≤ c && c ≤ 'z') || c == '_'

def continuesName (c : Char) : Bool :=
  startsName c || ('0' ≤ c && c ≤ '9') || c == '-'

/-- Whether a text starts like a mapping entry: a bare name, a colon, a space and something that
is not blank. -/
def isEntryText (cs : List Char) : Bool :=
  match cs with
  | [] => false
  | first :: rest =>
    startsName first &&
      match rest.dropWhile continuesName with
      | ':' :: ' ' :: c :: _ => !Text.isBlank c
      | _ => false

/-- A field whose text may already be structured. A text that starts with the key stands as it is.
Lines, or a single entry, become a nested block that keeps its own indentation, without blank
lines. Any other text is a scalar. -/
def fragment (indent key value : String) : List String :=
  if Text.startsWith value (key ++ ":") then [indent ++ value]
  else if Text.isMultiline value || isEntryText value.toList then
    let body := (Text.lines value).filter (!Text.isBlankText ·)
    header indent key :: Text.indentBy (indent ++ "  ") (body.map Text.stripEnd)
  else [entry indent key (scalar value)]

end JobFlow.Yaml
