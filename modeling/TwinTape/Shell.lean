import TwinTape.Machine.Execute
import TwinTape.Shell.Folder
import TwinTape.Shell.Options
import TwinTape.Shell.Screen
import TwinTape.Text

/-! # The shell

The shell runs programs for a user: one that is given on the command line, or one for each line
of input.  It prints what the programs print, reports faults and warnings, and answers programs
that wait with lines of input.

The shell is a state and a turn.  `Shell.advance` lets the program go on for one event, and
`Shell.supply` takes a line when the shell waits for one; `Shell.turn` does whichever is due,
with the input still to be read, until `Shell.status?` gives the exit status. -/

namespace TwinTape

/-! ### Lines of input

Input comes as bytes and is read by lines.  A line reaches through its line feed, or to the end
of the input. -/

/-- What reading a line gives. -/
inductive Line where
  /-- The characters of the line, its line feed included. -/
  | text (line : String)
  /-- The bytes of the line are not a text. -/
  | malformed
  /-- The input is at its end. -/
  | finished
deriving DecidableEq, Repr

namespace Line

/-- The byte that ends a line. -/
def feed : UInt8 := 10

/-- The bytes of the next line, and those after it. -/
def split (bytes : List UInt8) : List UInt8 × List UInt8 :=
  let body := bytes.takeWhile (· != feed)
  match bytes.dropWhile (· != feed) with
  | [] => (body, [])
  | mark :: rest => (body ++ [mark], rest)

/-- The line made of the given bytes. -/
def ofBytes (bytes : List UInt8) : Line :=
  if bytes = [] then finished
  else match String.fromUTF8? (ByteArray.mk bytes.toArray) with
    | some line => text line
    | none => malformed

/-- The next line, and the bytes after it. -/
def take (bytes : List UInt8) : Line × List UInt8 :=
  let (line, rest) := split bytes
  (ofBytes line, rest)

end Line

/-! ### The state of a shell -/

/-- What a shell does next. -/
inductive Activity where
  /-- Let the program go on. -/
  | driving
  /-- Take a line for the program. -/
  | answering
  /-- Take a line that is a program. -/
  | prompting
  /-- Nothing: the shell has ended with this status. -/
  | done (status : Nat)
deriving DecidableEq, Repr

/-- The state of a shell. -/
structure Shell where
  options : Options
  machine : Machine := {}
  screen : Screen := {}
  activity : Activity
  /-- The program on the command line, if it is one, has not failed. -/
  success : Bool := true
  /-- What is said about arguments or input that can not be read. -/
  complaint : String := ""

namespace Shell

/-- Steps a program may take before the shell looks after it. -/
def budget : Nat := 5000

/-- Writes a report. -/
def report (s : Shell) (level : Level) (text : String) : Shell :=
  { s with screen := s.screen.report level text }

/-- Writes a report for users who want to see what is going on. -/
def debug (s : Shell) (text : String) : Shell :=
  if s.options.debugs then s.report .debug text else s

/-- Ends an open line. -/
def finishLine (s : Shell) : Shell := { s with screen := s.screen.finishLine }

/-! ### Before and after a run -/

/-- Reports the jumps of a program, and the places of brackets without a partner. -/
def reportJumps (s : Shell) (p : Program) : Shell :=
  if s.options.has .debugHeavy then
    let s := s.report .heavyDebug ("Jumps: " ++ p.jumps.text)
    let places := p.jumps.unmatched.map fun a => (p.position a).text
    if places = [] then s
    else s.report .heavyDebug ("Unmatched brackets at " ++ ", ".intercalate places)
  else s

/-- Starts a program. -/
def start (s : Shell) (source text : String) : Shell :=
  let s := s.debug ("Raw code: " ++ Text.quoted text)
  let s := { s with
    machine := s.machine.runText source text
    activity := .driving
    success := true }
  if s.machine.isRunning then
    let p := s.machine.program
    (s.debug ("Commands: " ++ p.text)).reportJumps p
  else s

/-- Ends a run: the shell asks for the next program, or ends if there was one on the command
line. -/
def conclude (s : Shell) : Shell :=
  let s := s.finishLine
  let s := s.debug ("Global memory: " ++ s.machine.global.text)
  let s := s.debug ("Local memory: " ++ s.machine.local.text)
  let interactive := s.options.code.isNone && s.options.path.isNone
  { s with activity := if interactive then .prompting else .done (if s.success then 0 else 1) }

/-! ### Events -/

/-- The report of a warning, with how to switch it off. -/
def warningText (w : Warning) : String :=
  w.text ++ " (you can use the --disable-warnings flag to disable all warnings or --disable-"
    ++ w.name ++ "-warning to disable this particular warning)"

/-- The report of an executed instruction: its place and text, and both memories. -/
def traceText (m : Machine) (address : Nat) (i : Instruction) : String :=
  (m.program.position address).text ++ " " ++ i.text ++ " | " ++ m.global.text ++ " | "
    ++ m.local.text

/-- Tells the user what happened. -/
def notify (s : Shell) : Notice → Shell
  | .print output => { s with screen := s.screen.print output }
  | .warning w => if s.options.warns w then s.report .warning (warningText w) else s
  | .trace address =>
    match s.machine.program.instruction? address with
    | some i => s.report .heavyDebug (traceText s.machine address i)
    | none => s
  | .fault f => { s.report .error f.message with success := false }

/-- Lets the program go on for one event. -/
def advance (draws : Draws) (s : Shell) : Shell :=
  let (event, machine) := s.machine.execute draws budget
  let s := { s with machine := machine }
  match event with
  | .stopped => s.conclude
  | .running => s
  | .input _ => { s.finishLine with activity := .answering }
  | .notice n => s.notify n

/-! ### Lines -/

/-- Ends the shell because its input is not a text. -/
def fail (s : Shell) : Shell :=
  { s with complaint := "stream did not contain valid UTF-8\n", activity := .done 1 }

/-- Gives a line to the program; at the end of the input the program is interrupted. -/
def answer (s : Shell) : Line → Shell
  | .text line =>
    { s with machine := (s.machine.enter line.toList).2, activity := .driving }
  | .finished => { s with machine := s.machine.interrupt, activity := .driving }
  | .malformed => s.fail

/-- Runs a line as a program unless it is blank; at the end of the input the shell ends. -/
def prompt (s : Shell) : Line → Shell
  | .text line =>
    if line.toList.all Text.isBlank then s else s.start "<input>" line
  | .finished => { s with activity := .done 0 }
  | .malformed => s.fail

/-- Takes a line if one is due. -/
def supply (s : Shell) (line : Line) : Shell :=
  match s.activity with
  | .answering => s.answer line
  | .prompting => s.prompt line
  | _ => s

/-! ### Turns -/

/-- The exit status of a shell that has ended. -/
def status? (s : Shell) : Option Nat :=
  match s.activity with
  | .done status => some status
  | _ => none

/-- A line is due. -/
def wantsLine (s : Shell) : Bool := s.activity == .answering || s.activity == .prompting

/-- Does what is due, with the bytes of the input that are not read yet. -/
def turn (draws : Draws) (s : Shell) (unread : List UInt8) : Shell × List UInt8 :=
  match s.activity with
  | .driving => (s.advance draws, unread)
  | .answering | .prompting =>
    let (line, rest) := Line.take unread
    (s.supply line, rest)
  | .done _ => (s, unread)

/-- Takes at most `turns` turns. -/
def run (draws : Draws) : Nat → Shell → List UInt8 → Shell × List UInt8
  | 0, s, unread => (s, unread)
  | turns + 1, s, unread =>
    let (s, unread) := s.turn draws unread
    run draws turns s unread

/-! ### The command line -/

/-- The name and number of this program. -/
def versionText : String := "golden 0.5.0\n"

/-- How this program is called. -/
def helpText : String :=
  "Interpreter for The Golden\n\n" ++
  "Usage: golden [OPTIONS] [PATH]\n\n" ++
  "Arguments:\n" ++
  "  [PATH]  Directory holding maumivu.au, or the path of the file itself\n\n" ++
  "Options:\n" ++
  "  -c, --code <CODE>  Run this program text instead of a file (also \x60-\x60)\n" ++
  "      --debug  Print the raw code, the commands and the final memory\n" ++
  "      --debug-heavy  Like --debug, also print the jump table and every executed command\n" ++
  "      --disable-warnings  Silence every warning\n" ++
  "      --disable-too-left-pointer-warning  " ++
  "Silence the warning for moving left of the first cell\n" ++
  "      --no-ansi  Plain output without colors\n" ++
  "  -h, --help  Print help\n" ++
  "  -V, --version  Print version\n"

/-- What is said about arguments that are not understood. -/
def rejectText : String := "error: unexpected arguments\n\nFor more information, try '--help'.\n"

/-- A shell that has written a text and ended. -/
def ended (text : String) (status : Nat) : Shell :=
  { options := {}, screen := { text := text }, activity := .done status }

/-- A shell with the given options, which has not run anything. -/
def idle (o : Options) : Shell :=
  { options := o, machine := Machine.setTracing {} (o.has .debugHeavy), activity := .prompting }

/-- A shell with the given options; `lookup` finds program files. -/
def ofOptions (lookup : String → Lookup) (o : Options) : Shell :=
  match o.code, o.path with
  | some code, _ => (idle o).start "<code>" code
  | none, some path =>
    let source := String.ofList (programPath path.toList)
    match (lookup source).text source with
    | .ok text => (idle o).start source text
    | .error fault => { (idle o).report .error fault.message with activity := .done 1 }
  | none, none => idle o

/-- The shell that a command line asks for. -/
def ofCommandLine (lookup : String → Lookup) (arguments : List String) : Shell :=
  match Invocation.ofCommandLine arguments with
  | .run o => ofOptions lookup o
  | .version => ended versionText 0
  | .help => ended helpText 0
  | .reject => { ended "" 2 with complaint := rejectText }

end Shell
end TwinTape
