import JobFlow.CommandLine.Discovery
import JobFlow.CommandLine.Platform

/-!
Runs of the program. A run finds a workflow, loads and compiles it, and shows what the command asks
for. It is a function of the settings, the platform, the files and the arguments; what it would print
and write is its result. The output streams are taken to accept all that is printed.
-/

set_option autoImplicit false

namespace JobFlow.CommandLine

/-- A file that was written: where it stands, the path that names it, and its new text. -/
structure OutputFile where
  location : FileTree.Location
  path : FilePath
  text : String
  deriving DecidableEq, Repr

structure Run where
  ending : Ending
  output : Output := {}
  file : Option OutputFile := none
  deriving DecidableEq, Repr

def Run.filesAfter (r : Run) (tree : FileTree) : FileTree :=
  match r.file with
  | some file => tree.write file.location file.text
  | none => tree

def tell (debugging : Bool) (notices : List Notice) : Output :=
  (notices.map (Notice.output debugging)).foldl Output.append {}

/-- Unresolved downloads, as warnings and errors list them. -/
def unresolvedDetails (errors : List Unresolved) : List String :=
  errors.map fun e => "job " ++ e.job ++ ": " ++ e.message

def unresolvedCount (errors : List Unresolved) : String :=
  Text.ofNat errors.length ++ " artifact download(s) could not be resolved"

/-- The notice about a definition that does not compile. Refused transfers and values that cannot be
written have none. -/
def compileNotice : CompileError → Except Uncaught Notice
  | .graph error => .ok (.error "Invalid job graph" error.message [] "")
  | .duplicateStep error =>
    .ok (.error "Internal error" error.message []
      "This is a bug in the step generator, not in your workflow.")
  | .unresolved errors =>
    .ok (.error "Unresolved artifacts" (unresolvedCount errors) (unresolvedDetails errors)
      "Add the uploading job to `needs`, or fix the artifact name/pattern.")
  | .upload error => .error (.upload error)
  | .download error => .error (.download error)
  | .render error => .error (.render error)

/-- How the workflow file ends a run that loads it, when it raises more than an exception. -/
def loadEnding? : LoadError → Option Ending
  | .raised (.exit code message) => some (.quit code message)
  | .raised (.interruption kind message) => some (.uncaught (.interruption kind message))
  | _ => none

/-- What every command begins with: output so far, and a compilation or the end of the run. -/
structure Preparation where
  output : Output
  outcome : Except Ending Compilation

/-- Finds, loads and compiles the workflow. Some commands announce the workflow before it is
compiled. -/
def prepare (settings : Settings) (tree : FileTree) (i : Invocation)
    (announce failOnUnresolved : Bool) : Preparation :=
  let tell := tell i.debugging
  match discover settings tree i.workflow with
  | .error e =>
    match e.notice with
    | .ok notice => ⟨tell [notice], .error (.exit 1)⟩
    | .error fault => ⟨{}, .error (.uncaught (.file fault))⟩
  | .ok path =>
    match tree.load path with
    | .error e =>
      match loadEnding? e with
      | some ending => ⟨{}, .error ending⟩
      | none =>
        ⟨tell [.error "Failed to load workflow" ("Could not load workflow from " ++ path.text)
            [e.message] "", .failure e.message], .error (.exit 1)⟩
    | .ok definition =>
      let jobs := definition.jobs.length
      let opening :=
        .debug ("Loaded " ++ Text.ofNat jobs ++ " job(s) from " ++ path.text) ::
          if announce then [Notice.started path.text jobs] else []
      let compiled := definition.compile settings i.strict failOnUnresolved
      let told := tell (opening ++ compiled.trace.map Notice.debug)
      match compiled.outcome with
      | .ok compilation => ⟨told, .ok compilation⟩
      | .error e =>
        match compileNotice e with
        | .ok notice => ⟨told ++ tell [notice], .error (.exit 1)⟩
        | .error uncaught => ⟨told, .error (.uncaught uncaught)⟩

def warnings (c : Compilation) : List Notice :=
  if c.unresolved.isEmpty then []
  else [.warning (unresolvedCount c.unresolved) (unresolvedDetails c.unresolved)]

/-- Prints the compiled text, or writes it to a file as it is. A file is emptied before it is written,
and stays empty when the text cannot be encoded. -/
def emit (platform : Platform) (tree : FileTree) (i : Invocation) (c : Compilation) : Run :=
  if i.output = "" then ⟨.exit 0, { stdout := platform.echo c.text }, none⟩
  else if FilePath.isCutShort i.output then ⟨.uncaught .optionCutShort, {}, none⟩
  else
    let path := FilePath.ofString i.output
    match tree.target? path with
    | .error e => ⟨.uncaught (.file e), {}, none⟩
    | .ok location =>
      match platform.encodingFault? c.text with
      | some message => ⟨.uncaught (.encoding message), {}, some ⟨location, path, ""⟩⟩
      | none =>
        let notice :=
          Notice.info ("Wrote " ++ Text.ofNat c.order.length ++ " job(s) to " ++ i.output)
        ⟨.exit 0, tell i.debugging [notice], some ⟨location, path, c.text⟩⟩

def fileNotices (c : Compilation) : List Notice :=
  c.files.flatMap fun (job, files) =>
    files.map fun f => .file job f.artifact f.uploadedPath f.downloadPath

def finish (platform : Platform) (tree : FileTree) (i : Invocation) (c : Compilation) : Run :=
  let tell := tell i.debugging
  match i.command with
  | .compile =>
    let run := emit platform tree i c
    { run with output := tell (warnings c) ++ run.output }
  | .validate =>
    ⟨.exit 0, tell [.success ("valid (" ++ Text.ofNat c.order.length ++ " jobs)")], none⟩
  | .plan =>
    ⟨.exit 0, tell [.header "EXECUTION ORDER", .order c.order, .header "STAGES",
      .stages c.stages], none⟩
  | .artifacts =>
    let lookups : Traced Empty _ := c.tracedFiles
    ⟨.exit 0, tell (warnings c ++ .header "ARTIFACT FILES" ::
      (lookups.trace.map Notice.debug ++ fileNotices c)), none⟩

def execute (settings : Settings) (platform : Platform) (tree : FileTree) (i : Invocation) : Run :=
  let announce := i.command == .plan || i.command == .artifacts
  let failOnUnresolved := i.command == .validate || i.failOnUnresolved
  let prepared := prepare settings tree i announce failOnUnresolved
  match prepared.outcome with
  | .error ending => ⟨ending, prepared.output, none⟩
  | .ok compilation =>
    let run := finish platform tree i compilation
    { run with output := prepared.output ++ run.output }

def run (settings : Settings) (platform : Platform) (tree : FileTree) (arguments : List String) :
    Run :=
  match platform.read tree arguments with
  | .ends ending output => ⟨ending, output, none⟩
  | .invocation i => execute settings platform tree i

end JobFlow.CommandLine
