import AccessPlanner.Document.Condition
import AccessPlanner.Document.Config
import AccessPlanner.Document.Schema
import AccessPlanner.Text.Blank

/-!
# Console commands

`Command.parse` reads one command.  A command is a keyword, in letters of either case; planning
commands go on with the document of a condition set, and such a document alone is a planning
command too.
-/

namespace AccessPlanner.Console

/-- **Why the console reports a failure.** -/
inductive ConsoleError where
  | noSuchFile
  | configDocument (cause : DocumentError)
  | document (cause : DocumentError)
  | emptyCommand
  | unknownCommand (keyword : String)
  | missingDocument
  | notText
  | plan (cause : PlanError)
  deriving DecidableEq

/-- The wording of a failure. -/
def ConsoleError.message : ConsoleError → String
  | noSuchFile => "I/O error: No such file or directory (os error 2)"
  | configDocument cause => "I/O error: " ++ cause.message
  | document cause => "invalid JSON: " ++ cause.message
  | emptyCommand => "parse error: empty command"
  | unknownCommand keyword => "parse error: unknown command: " ++ keyword
  | missingDocument => "parse error: expected a condition set document"
  | notText => "stream did not contain valid UTF-8"
  | plan cause => cause.message

/-- **A command.** -/
inductive Command where
  | plan (set : ConditionSet) (projection : Projection)
  | schema
  | config
  | help
  | exit

namespace Command

/-- A planning command with the text of its document. -/
def ofDocument (document : List Char) (projection : Projection) : Except ConsoleError Command :=
  if document.isEmpty then .error .missingDocument
  else
    match readText ConditionSet.read (String.ofList document).toUTF8.toList with
    | .ok set => .ok (plan set projection)
    | .error cause => .error (.document cause)

/-- The command of a keyword in capital letters and the text after it, which only planning
commands look at. -/
def ofKeyword (keyword : String) (rest : List Char) : Except ConsoleError Command :=
  match keyword with
  | "PLAN" => ofDocument rest .items
  | "COUNT" => ofDocument rest .count
  | "SCHEMA" => .ok schema
  | "CONFIG" => .ok config
  | "HELP" => .ok help
  | "EXIT" => .ok exit
  | "QUIT" => .ok exit
  | "" => .error .emptyCommand
  | other => .error (.unknownCommand other)

/-- **Reading a command.** Only ASCII letters are made capital. -/
def parse (input : String) : Except ConsoleError Command :=
  let text := trim input.toList
  if text.head? = some '{' then ofDocument text .items
  else
    let (keyword, rest) := firstWord text
    ofKeyword (String.ofList (keyword.map Char.toUpper)) (trim rest)

end Command

end AccessPlanner.Console
