/-!
# Command-line arguments

A key schema is required and a configuration may be given, each as the path of a file and each at
most once.  Commands may be given any number of times, and the output may be JSON.

`Arguments.parse` reads the arguments of the console.  `Early` says why the console ends before
it begins: wrong usage, or a question about the console itself.
-/

namespace AccessPlanner.Console

/-- **Why the console ends at its arguments.** -/
inductive Early where
  | usage
  | help
  | version
  deriving DecidableEq

/-- An option that takes a value. -/
inductive ValueOption where
  | schema
  | config
  | exec
  deriving DecidableEq

/-- **What was given,** with the commands in their order. -/
structure Arguments where
  schema : Option String := none
  config : Option String := none
  commands : List String := []
  json : Bool := false
  deriving DecidableEq

namespace Arguments

/-- A path may be given once, and must not be empty. -/
def setPath (earlier : Option String) (path : String) : Except Early (Option String) :=
  if earlier.isSome ∨ path = "" then .error .usage else .ok (some path)

/-- The arguments with the value of an option. -/
def put (given : Arguments) (option : ValueOption) (value : String) : Except Early Arguments :=
  match option with
  | .schema => (setPath given.schema value).map fun schema => { given with schema }
  | .config => (setPath given.config value).map fun config => { given with config }
  | .exec => .ok { given with commands := given.commands ++ [value] }

/-- The arguments with the JSON flag, which may be given once. -/
def setJson (given : Arguments) : Except Early Arguments :=
  if given.json then .error .usage else .ok { given with json := true }

/-- **Short options in one argument.** Flags may stand together; an option that takes a value ends
the argument, with its value or with an equals sign and its value, or else waits for the next
argument. -/
def shorts : Arguments → List Char → Except Early (Arguments × Option ValueOption)
  | given, [] => .ok (given, none)
  | given, c :: rest =>
    let withValue (option : ValueOption) :=
      match rest with
      | [] => .ok (given, some option)
      | '=' :: value => (given.put option (String.ofList value)).map fun given => (given, none)
      | value => (given.put option (String.ofList value)).map fun given => (given, none)
    match c with
    | 's' => withValue .schema
    | 'c' => withValue .config
    | 'e' => withValue .exec
    | 'j' => do
      let given ← given.setJson
      shorts given rest
    | 'h' => .error .help
    | 'V' => .error .version
    | _ => .error .usage

/-- A long option without and with an attached value. -/
def long (given : Arguments) (name : List Char) (value : Option String) :
    Except Early (Arguments × Option ValueOption) :=
  let withValue (option : ValueOption) :=
    match value with
    | none => .ok (given, some option)
    | some value => (given.put option value).map fun given => (given, none)
  match String.ofList name, value with
  | "schema", _ => withValue .schema
  | "config", _ => withValue .config
  | "exec", _ => withValue .exec
  | "json", none => given.setJson.map fun given => (given, none)
  | "help", none => .error .help
  | "version", none => .error .version
  | _, _ => .error .usage

/-- The attached value of a long option. -/
def attached? (option : List Char) : Option String :=
  match option.dropWhile (· ≠ '=') with
  | [] => none
  | _ :: value => some (String.ofList value)

/-- Whether an argument is an option; a lone hyphen is a value. -/
def isOption (argument : String) : Bool :=
  match argument.toList with
  | '-' :: _ :: _ => true
  | _ => false

/-- One argument that is not the value of the one before: the arguments with it, and the option
that waits for its value. -/
def step (given : Arguments) (argument : String) :
    Except Early (Arguments × Option ValueOption) :=
  match argument.toList with
  | '-' :: '-' :: option => given.long (option.takeWhile (· ≠ '=')) (attached? option)
  | '-' :: c :: rest => given.shorts (c :: rest)
  | _ => .error .usage

/-- All arguments, one after the other.  Nothing may come after two lone hyphens, and an option
is never taken as a value. -/
def scan : Arguments → Option ValueOption → List String → Except Early Arguments
  | given, none, [] => .ok given
  | _, some _, [] => .error .usage
  | given, some option, value :: rest =>
    if isOption value then .error .usage
    else do
      let given ← given.put option value
      scan given none rest
  | given, none, argument :: rest =>
    if argument = "--" then if rest.isEmpty then .ok given else .error .usage
    else do
      let (given, waiting) ← given.step argument
      scan given waiting rest

/-- **Reading the command line.** Without a schema it is wrong. -/
def parse (arguments : List String) : Except Early Arguments := do
  let given ← scan {} none arguments
  if given.schema.isNone then throw .usage
  return given

end Arguments

end AccessPlanner.Console
