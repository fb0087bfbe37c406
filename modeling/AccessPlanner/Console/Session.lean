import AccessPlanner.Console.Arguments
import AccessPlanner.Console.Render
import AccessPlanner.Repository

/-!
# Console sessions

A `Session` is a schema, a configuration and an output mode.  It runs commands one after the
other until one fails or ends it; `invoke` is a whole run of the console, from its arguments, the
files and the standard input to what it prints.
-/

namespace AccessPlanner.Console

/-! ### Runs -/

/-- **What a run prints and how it ends.** Each text is printed with a line break after it. -/
structure Run where
  stdout : List String := []
  stderr : List String := []
  code : Nat := 0
  deriving DecidableEq

/-- The text of printed lines. -/
def printed (texts : List String) : String :=
  String.join (texts.map fun text => text ++ "\n")

/-- **A schema and a configuration to plan with,** and the mode of output. -/
structure Session where
  schema : KeySchema
  config : PlannerConfig
  mode : OutputMode

/-- The end of a command: the session goes on after an answer, or is over. -/
inductive Step where
  | answer (answer : Answer)
  | over

namespace Session

/-- Carrying out a command. -/
def execute (session : Session) : Command → Except ConsoleError Step
  | .plan set projection =>
    match session.schema.entity.prepare session.config set projection with
    | .ok (plan, request) => .ok (.answer (.plan plan request))
    | .error cause => .error (.plan cause)
  | .schema => .ok (.answer (.schema session.schema))
  | .config => .ok (.answer (.config session.config))
  | .help => .ok (.answer .help)
  | .exit => .ok .over

/-- Reading and carrying out a command. -/
def runCommand (session : Session) (input : Except ConsoleError String) :
    Except ConsoleError Step := do
  session.execute (← Command.parse (← input))

/-- The run that a failure ends: people read it among the errors, programs in the output. -/
def failed (session : Session) (error : ConsoleError) : Run :=
  match session.mode with
  | .pretty => { stderr := [error.line], code := 1 }
  | .json => { stdout := [error.toJson.write], code := 1 }

/-- **Running commands,** up to the first failure or the end of the session. -/
def run (session : Session) : List (Except ConsoleError String) → Run
  | [] => {}
  | input :: inputs =>
    match session.runCommand input with
    | .error error => session.failed error
    | .ok .over => {}
    | .ok (.answer answer) =>
      let rest := session.run inputs
      { rest with stdout := answer.print session.mode ++ rest.stdout }

end Session

/-! ### Standard input -/

/-- Bytes cut at the line feeds.  What comes after the last one is a line only if there is
something. -/
def cutLines : List UInt8 → List (List UInt8)
  | [] => []
  | byte :: rest =>
    if byte = 10 then [] :: cutLines rest
    else
      match cutLines rest with
      | [] => [[byte]]
      | line :: lines => (byte :: line) :: lines

/-- The command in a line, if there is one: blank lines and comments are skipped, and a line that
is not text is a failure. -/
def lineCommand? (line : List UInt8) : Option (Except ConsoleError String) :=
  match String.fromUTF8? ⟨line.toArray⟩ with
  | none => some (.error .notText)
  | some text =>
    let text := trim text.toList
    if text.isEmpty || text.head? == some '#' then none else some (.ok (String.ofList text))

/-- The commands in the standard input. -/
def inputCommands (stdin : List UInt8) : List (Except ConsoleError String) :=
  (cutLines stdin).filterMap lineCommand?

/-! ### The console -/

/-- Access to files: the bytes under a path, if there is a file. -/
abbrev Files := String → Option (List UInt8)

/-- The contents of a file. -/
def readFile (files : Files) (path : String) : Except ConsoleError (List UInt8) :=
  match files path with
  | some bytes => .ok bytes
  | none => .error .noSuchFile

/-- The session of the given arguments. -/
def load (files : Files) (given : Arguments) : Except ConsoleError Session := do
  let bytes ← readFile files (given.schema.getD "")
  let schema ← (readText KeySchema.read bytes).mapError .document
  let config ←
    match given.config with
    | none => pure {}
    | some path => do
      let bytes ← readFile files path
      (readText PlannerConfig.read bytes).mapError .configDocument
  return { schema, config, mode := if given.json then .json else .pretty }

/-- The name and the version of the console. -/
def versionLine : String := "dynarepo-console 0.1.0"

/-- What the console takes on its command line. -/
def usageLine : String :=
  "Usage: dynarepo-console --schema <SCHEMA> [--config <CONFIG>] [--exec <EXEC>]... [--json]"

/-- The run of arguments that lead to no session. -/
def Early.run : Early → Run
  | usage => { stderr := [usageLine], code := 2 }
  | help => { stdout := [usageLine] }
  | version => { stdout := [versionLine] }

/-- **A run of the console.** The commands among the arguments are run if there are any, and
otherwise those of the standard input. -/
def invoke (files : Files) (arguments : List String) (stdin : List UInt8) : Run :=
  match Arguments.parse arguments with
  | .error early => early.run
  | .ok given =>
    match load files given with
    | .error error => { stderr := [error.line], code := 1 }
    | .ok session =>
      if given.commands.isEmpty then session.run (inputCommands stdin)
      else session.run (given.commands.map .ok)

end AccessPlanner.Console
