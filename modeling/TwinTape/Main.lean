import TwinTape.Shell

/-! # The command

The command runs a shell on its arguments, its standard input and the files it can read.  All
decisions are the shell's; here bytes are read and texts are written. -/

namespace TwinTape

/-- What the file system gives for a path. -/
def readLookup (path : String) : IO Lookup := do
  try
    return .file (← IO.FS.readBinFile path)
  catch
    | .noFileOrDirectory .. => return .missing
    | _ => return .unreadable

/-- The shell for a command line. -/
def openShell (arguments : List String) : IO Shell := do
  match Invocation.ofCommandLine arguments with
  | .run { path := some path, code := none, .. } =>
    let found ← readLookup (String.ofList (programPath path.toList))
    return Shell.ofCommandLine (fun _ => found) arguments
  | _ => return Shell.ofCommandLine (fun _ => .missing) arguments

/-- The bytes of the next line, after those in `read`, which are in reverse. -/
partial def readLine (input : IO.FS.Stream) (read : List UInt8) : IO (List UInt8) := do
  match (← input.read 1).toList with
  | byte :: _ => if byte = Line.feed then return (byte :: read).reverse else readLine input (byte :: read)
  | [] => return read.reverse

/-- Takes turns until the shell has ended, and gives its status. -/
partial def runShell (draws : Draws) (s : Shell) : IO UInt32 := do
  let output ← IO.getStdout
  output.putStr s.screen.text
  output.flush
  let s := { s with screen := { s.screen with text := "" } }
  match s.status? with
  | some status =>
    (← IO.getStderr).putStr s.complaint
    return UInt32.ofNat status
  | none =>
    let unread ← if s.wantsLine then readLine (← IO.getStdin) [] else pure []
    runShell draws (s.turn draws unread).1

end TwinTape

def main (arguments : List String) : IO UInt32 := do
  let seed := (← IO.getRandomBytes 8).foldl (fun word byte => word * 256 + byte.toUInt64) 0
  TwinTape.runShell (TwinTape.Draws.ofSeed seed) (← TwinTape.openShell arguments)
