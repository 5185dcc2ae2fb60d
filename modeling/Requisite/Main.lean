import Requisite.Command

/-!
# The program

Makes the directory of the log, reads the files that the command line names, executes the command on
them, and prints and writes what comes of it. The exit code is 0, 1 for an error, and 2 for a
command line that is not understood.
-/
namespace Requisite.Program

def usage : String :=
  "Usage: compatinfo analyze [OPTIONS] <TREES>...\n" ++
  "       compatinfo lookup [OPTIONS] <CATEGORY> <NAME>\n"

/-- Why a file cannot be read, with the number that the system has for it. -/
def reason : IO.Error → String
  | .noFileOrDirectory .. => "No such file or directory (os error 2)"
  | .permissionDenied .. => "Permission denied (os error 13)"
  | .inappropriateType _ 21 _ => "Is a directory (os error 21)"
  | .inappropriateType .. => "Not a directory (os error 20)"
  | .invalidArgument _ _ "name too long" => "File name too long (os error 36)"
  | .userError _ => "stream did not contain valid UTF-8"
  | error => toString error

/-- The content of a file, or why it cannot be read. -/
def load (path : String) : IO (String × Except String String) := do
  try
    return (path, .ok (← IO.FS.readFile path))
  catch error => return (path, .error (reason error))

/-- Makes the directory of the log, if the command has one. -/
def makeLogDir (command : Command) : IO (Except Error Unit) := do
  match command.logDir? with
  | none => return .ok ()
  | some path =>
    try
      IO.FS.createDirAll path
      return .ok ()
    catch _ => return .error (.noLogDirectory path)

/-- Files are read one after the other, so there are no threads that could fail to start. -/
def machine : Project.Machine where
  threads := 1
  start _ := .ok ()

def execute (command : Command) : IO (Except Error Command.Effect) := do
  match ← makeLogDir command with
  | .error error => return .error error
  | .ok () =>
    let named ← command.named.mapM load
    let more ← (command.namedInSettings (.ofList named)).mapM load
    return command.execute machine (.ofList (named ++ more))

def run (command : Command) : IO UInt32 := do
  match ← execute command with
  | .error error =>
    IO.eprintln ("Error: " ++ error.message)
    return 1
  | .ok effect =>
    IO.print effect.output
    for (path, content) in effect.written do
      try
        IO.FS.writeFile path content
      catch error => IO.eprintln s!"Failed to save statistics: {error}"
    return 0

end Requisite.Program

open Requisite in
def main (words : List String) : IO UInt32 :=
  match Command.parse words with
  | .ok command => Program.run command
  | .error .help => do
    IO.print Program.usage
    return 0
  | .error .version => do
    IO.println Command.versionLine
    return 0
  | .error .refused => do
    IO.eprint Program.usage
    return 2
