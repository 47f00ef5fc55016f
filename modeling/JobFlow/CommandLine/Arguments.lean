import JobFlow.Text.Match

/-!
Command-line arguments. One option stands before the command and belongs to all of them; the other
options follow the command, and each command takes its own. Of an option that is given twice the
last value counts. Everywhere an option may ask for help instead.
-/

set_option autoImplicit false

namespace JobFlow.CommandLine

inductive Command
  | compile
  | validate
  | plan
  | artifacts
  deriving DecidableEq, Repr

/-- A call of the program. Options that are not given are empty, or as the settings have them. -/
structure Invocation where
  debugging : Bool := false
  command : Command
  workflow : String := ""
  output : String := ""
  strict : Option Bool := none
  failOnUnresolved : Bool := false
  deriving DecidableEq, Repr

structure Parsed where
  invocation : Invocation
  asksForHelp : Bool := false
  /-- The arguments that are no options. No command takes any. -/
  leftover : List String := []
  deriving DecidableEq, Repr

/-- An option of a command: one that takes a value, or a switch. Both say what they change. -/
inductive Choice
  | value (set : Invocation → String → Invocation)
  | switch (set : Invocation → Invocation)
  | help

def helpOption : List (String × Choice) :=
  [("--help", .help)]

def workflowOption : List (String × Choice) :=
  [("--workflow", .value fun i v => { i with workflow := v })]

def strictOptions : List (String × Choice) :=
  [("--strict-artifacts", .switch fun i => { i with strict := some true }),
    ("--lenient-artifacts", .switch fun i => { i with strict := some false })]

def Command.longOptions : Command → List (String × Choice)
  | compile =>
    workflowOption ++ strictOptions ++ helpOption ++
      [("--output", .value fun i v => { i with output := v }),
        ("--fail-on-artifacts", .switch fun i => { i with failOnUnresolved := true })]
  | validate => workflowOption ++ strictOptions ++ helpOption
  | plan => workflowOption ++ helpOption
  | artifacts => workflowOption ++ strictOptions ++ helpOption

/-- The options of a command with one dash and one letter; they all take a value. -/
def Command.shortOptions : Command → List (Char × (Invocation → String → Invocation))
  | compile => [('o', fun i v => { i with output := v })]
  | _ => []

def Command.ofName? : String → Option Command
  | "compile" => some compile
  | "validate" => some validate
  | "plan" => some plan
  | "artifacts" => some artifacts
  | _ => none

/-- Splits `name=value` at the first equals sign. -/
def splitValue (argument : String) : String × Option String :=
  let cs := argument.toList
  match cs.dropWhile (· ≠ '=') with
  | [] => (argument, none)
  | _ :: value => (String.ofList (cs.takeWhile (· ≠ '=')), some (String.ofList value))

def Parsed.update (parsed : Parsed) (set : Invocation → Invocation) : Parsed :=
  { parsed with invocation := set parsed.invocation }

/-- Reads the arguments behind a command. A value may stand behind an equals sign, right behind a
short option, or as the next argument whatever that looks like. An unknown option and a missing value
are refused at once. What is no option, and all that stands behind `--`, is left over. -/
def readOptions (parsed : Parsed) : List String → Option Parsed
  | [] => some parsed
  | "--" :: rest => some { parsed with leftover := parsed.leftover ++ rest }
  | argument :: rest =>
    let (name, given) := splitValue argument
    match parsed.invocation.command.longOptions.lookup name, given with
    | some .help, none => readOptions { parsed with asksForHelp := true } rest
    | some .help, some _ => none
    | some (.switch set), none => readOptions (parsed.update set) rest
    | some (.switch _), some _ => none
    | some (.value set), some value => readOptions (parsed.update (set · value)) rest
    | some (.value set), none =>
      match rest with
      | [] => none
      | value :: rest => readOptions (parsed.update (set · value)) rest
    | none, _ =>
      match argument.toList with
      | '-' :: letter :: attached =>
        match parsed.invocation.command.shortOptions.lookup letter with
        | none => none
        | some set =>
          if attached.isEmpty then
            match rest with
            | [] => none
            | value :: rest => readOptions (parsed.update (set · value)) rest
          else readOptions (parsed.update (set · (String.ofList attached))) rest
      | _ => readOptions { parsed with leftover := parsed.leftover ++ [argument] } rest

def readCommand (debugging : Bool) : List String → Option Parsed
  | [] => none
  | name :: rest =>
    match Command.ofName? name with
    | some command => readOptions { invocation := { debugging, command } } rest
    | none => none

/-- What stands before the command: whether the run tells more, whether help is asked for, and the
arguments from the command on. Another option is refused. -/
def readCommon (debugging asksForHelp : Bool) :
    List String → Option (Bool × Bool × List String)
  | [] => some (debugging, asksForHelp, [])
  | "--" :: rest => some (debugging, asksForHelp, rest)
  | "--debug" :: rest => readCommon true asksForHelp rest
  | "--help" :: rest => readCommon debugging true rest
  | argument :: rest =>
    match argument.toList with
    | '-' :: _ :: _ => none
    | _ => some (debugging, asksForHelp, argument :: rest)

end JobFlow.CommandLine
