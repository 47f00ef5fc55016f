import JobFlow.Artifact.Transfer
import JobFlow.Yaml.Field

/-!
Steps of a job, and the blocks of text they become. A block is one item of the list of steps: its
first line is six spaces and a dash, and all its further fields stand under the first.
-/

set_option autoImplicit false

namespace JobFlow

structure CommandStep where
  name : String
  command : String
  workingDirectory : String := ""
  environment : Mapping Scalar := .empty
  id : String := ""
  condition : String := ""

structure ActionStep where
  name : String
  action : String
  inputs : Mapping Scalar := .empty
  id : String := ""
  condition : String := ""

namespace Step

def itemIndent : String :=
  "      "

def fieldIndent : String :=
  "        "

/-- The fields that every step starts with; the optional ones are left out when empty. -/
def opening (name id condition : String) : List String :=
  Yaml.entry itemIndent "- name" (Yaml.scalar name) ::
    ((if id = "" then [] else [Yaml.entry fieldIndent "id" id]) ++
      (if condition = "" then []
       else [Yaml.entry fieldIndent "if" (Yaml.scalar condition)]))

/-- A mapping field, left out when it has no entries. -/
def optionalMapping (key : String) (values : Mapping Scalar) : List String :=
  if values.isEmpty then [] else Yaml.blockMapping fieldIndent key values

end Step

def CommandStep.lines (s : CommandStep) : List String :=
  Step.opening s.name s.id s.condition ++
    (if s.workingDirectory = "" then []
     else [Yaml.entry Step.fieldIndent "working-directory" (Yaml.scalar s.workingDirectory)]) ++
    Step.optionalMapping "env" s.environment ++
    Yaml.valueField Step.fieldIndent "run" s.command

def ActionStep.lines (s : ActionStep) : List String :=
  Step.opening s.name s.id s.condition ++
    [Yaml.entry Step.fieldIndent "uses" s.action] ++
    Step.optionalMapping "with" s.inputs

def Upload.step (upload : Upload) : ActionStep where
  name := "Upload " ++ upload.name
  action := "actions/upload-artifact@v4"
  inputs := .ofList <|
    [("name", .text upload.name), ("path", .text ("\n".intercalate upload.paths)),
      ("if-no-files-found", .text upload.ifNoFilesFound)] ++
    if upload.includeHiddenFiles then [("include-hidden-files", .text "true")] else []

/-- The step that makes a download. Merging is mentioned only together with a pattern. -/
def Download.step (download : Download) : ActionStep where
  name := "Download " ++ if download.name = "" then download.pattern else download.name
  action := "actions/download-artifact@v4"
  inputs := .ofList <|
    (if download.name = "" then [] else [("name", .text download.name)]) ++
    (if download.pattern = "" then []
     else ("pattern", .text download.pattern) ::
       if download.mergeMultiple then [("merge-multiple", .text "true")] else []) ++
    [("path", .text download.path)]

/-- A step as it is written down: a command, an action, a transfer, or a finished block. -/
inductive Step
  | command (step : CommandStep)
  | action (step : ActionStep)
  | upload (upload : Upload)
  | download (download : Download)
  | block (text : String)

def Step.text : Step → String
  | command step => Text.unlines step.lines
  | action step => Text.unlines step.lines
  | upload transfer => Text.unlines transfer.step.lines
  | download transfer => Text.unlines transfer.step.lines
  | block text => text

namespace Step

/-- The name that a line gives, when it is a `name:` line, without the dash of a list item and
without quotes. -/
def lineName? (line : List Char) : Option (List Char) :=
  let trimmed := Text.trim line
  let field := match trimmed with
    | '-' :: rest => Text.trim rest
    | _ => trimmed
  if "name:".toList.isPrefixOf field then
    some (Text.trimWhile (fun c => c == '"' || c == '\'') (Text.trim (field.drop 5)))
  else none

/-- The name in the first `name:` line of a block; empty when there is none. -/
def nameOf (block : String) : String :=
  String.ofList (((block.toList.splitOn '\n').findSome? lineName?).getD [])

end Step

end JobFlow
