import PagedTopK.CommandLine.Run

set_option autoImplicit false

/-!
# The command line

The files that a command names are read before it runs, and what it writes is written after it has
run. No service is reached from here: every connection is refused.
-/

namespace PagedTopK.CommandLine

/-- The cause behind a failure of the file system. -/
def fileError : IO.Error → FileError
  | .noFileOrDirectory .. => .notFound
  | .inappropriateType .. => .isDirectory
  | .alreadyExists .. => .isDirectory
  | .invalidArgument .. => .nameTooLong
  | _ => .notDirectory

/-- The contents of a file. -/
def readFile (path : String) : IO (Except FileError String) := do
  try
    return .ok (← IO.FS.readFile path)
  catch e => return .error (fileError e)

/-- Write a file. -/
def writeFile (path contents : String) : IO (Except CommandError Unit) := do
  try
    IO.FS.writeFile path contents
    return .ok ()
  catch e => return .error (.unwritable path (fileError e))

/-- Write files one after the other, up to the first failure. -/
def writeFiles : List (String × String) → IO (Except CommandError Unit)
  | [] => return .ok ()
  | (path, contents) :: rest => do
    match ← writeFile path contents with
    | .ok _ => writeFiles rest
    | .error e => return .error e

/-- The world as a command finds it: what has been read, and no service. -/
def worldOf (contents : List (String × Except FileError String)) : World where
  read path := (contents.lookup path).getD (.error .notFound)
  mayWrite _ _ := .ok ()
  transport := HttpService.transport ⟨"", []⟩
  now := ""
  elapsed := (0, 0)

/-- Run a command and report its failure; gives the exit status. -/
def perform (command : Command) : IO UInt32 := do
  let contents ← command.reads.mapM fun path => return (path, ← readFile path)
  let effects := command.effects (worldOf contents)
  for warning in effects.warnings do
    IO.eprintln warning.message
  let written ← writeFiles effects.written
  match written, effects.result with
  | .ok _, .ok _ =>
    IO.print effects.printed
    return 0
  | .error e, _ | .ok _, .error e =>
    IO.eprintln ("Error: " ++ e.message)
    return 1

end PagedTopK.CommandLine

/-- Run the command that the arguments name. -/
def main (arguments : List String) : IO UInt32 := do
  match PagedTopK.CommandLine.parse? arguments with
  | some command => PagedTopK.CommandLine.perform command
  | none =>
    IO.eprintln "usage: topk [--verbose] run|compare|strategies [ARGUMENTS]"
    return 2
