import AccessPlanner.Console.Session

/-!
# The console program

The outer layer of the console: it reads the files that the arguments name and the standard
input, and prints what the run says.  Everything else is decided by `Console.invoke`.
-/

namespace AccessPlanner.Console

/-- The bytes of the file under a path, if it can be read. -/
def readBytes? (path : String) : IO (Option (List UInt8)) := do
  try
    return some (← IO.FS.readBinFile path).toList
  catch _ =>
    return none

/-- The files that the arguments name. -/
def filesOf (given : Arguments) : IO Files := do
  let paths := given.schema.toList ++ given.config.toList
  let contents ← paths.mapM fun path => return (path, ← readBytes? path)
  return fun path => (contents.lookup path).join

/-- The standard input, which is read only where it holds the commands. -/
def stdinOf (given : Arguments) : IO (List UInt8) := do
  if given.commands.isEmpty then
    return (← (← IO.getStdin).readBinToEnd).toList
  return []

/-- The run of the console on the files and the standard input of the machine. -/
def runOn (arguments : List String) : IO Run := do
  match Arguments.parse arguments with
  | .ok given => return invoke (← filesOf given) arguments (← stdinOf given)
  | .error _ => return invoke (fun _ => none) arguments []

end AccessPlanner.Console

/-- **The console.** -/
def main (arguments : List String) : IO UInt32 := do
  let run ← AccessPlanner.Console.runOn arguments
  IO.print (AccessPlanner.Console.printed run.stdout)
  IO.eprint (AccessPlanner.Console.printed run.stderr)
  return run.code.toUInt32
