import TwinTape.Event

/-! # Command line options

The arguments of the command line are read from left to right.

* `--code X`, `--code=X`, `-c X`, `-cX` and `-c=X` give a program text; a lone `-` stands for
  `--code`.  The argument after `--code` is the text whatever it looks like.
* `--version`, `-V`, `--help` and `-h` are answered at once, whatever follows.
* The flags take no value.  No option and no flag may be repeated.
* Any other argument is a path, of which there may be one; after `--` all arguments are paths.
* A text and a path exclude each other. -/

namespace TwinTape

/-- The options that are given or not. -/
inductive Flag where
  /-- Report the text, the commands and the final memory. -/
  | debug
  /-- Report also the jumps and every executed command. -/
  | debugHeavy
  /-- Report no warning. -/
  | disableWarnings
  /-- Report no warning of a move off the left end. -/
  | disableTooLeft
  /-- Write without colours. -/
  | noAnsi
deriving DecidableEq, Repr

namespace Flag

/-- The name of a flag without its dashes. -/
def name : Flag → String
  | debug => "debug"
  | debugHeavy => "debug-heavy"
  | disableWarnings => "disable-warnings"
  | disableTooLeft => "disable-too-left-pointer-warning"
  | noAnsi => "no-ansi"

/-- Every flag once. -/
def all : List Flag := [debug, debugHeavy, disableWarnings, disableTooLeft, noAnsi]

/-- The flag with the given name. -/
def ofName? (name : String) : Option Flag := all.find? (·.name == name)

end Flag

/-- What the command line asks for. -/
structure Options where
  /-- The folder of the program, or the program file itself. -/
  path : Option String := none
  /-- The text of the program. -/
  code : Option String := none
  flags : List Flag := []
deriving DecidableEq, Repr

namespace Options

/-- The flag is given. -/
def has (o : Options) (f : Flag) : Bool := o.flags.contains f

/-- The text, the commands and the final memory are reported. -/
def debugs (o : Options) : Bool := o.has .debug || o.has .debugHeavy

/-- The warning is reported. -/
def warns (o : Options) : Warning → Bool
  | .tooLeft => !o.has .disableWarnings && !o.has .disableTooLeft

/-- Takes a path, unless there is one. -/
def addPath (o : Options) (path : String) : Option Options :=
  if o.path.isSome then none else some { o with path := some path }

/-- Takes a program text, unless there is one. -/
def addCode (o : Options) (code : String) : Option Options :=
  if o.code.isSome then none else some { o with code := some code }

/-- Takes a flag, unless it is given. -/
def addFlag (o : Options) (f : Flag) : Option Options :=
  if o.has f then none else some { o with flags := f :: o.flags }

end Options

/-- What to do with a command line. -/
inductive Invocation where
  | run (options : Options)
  | version
  | help
  /-- The arguments are not understood. -/
  | reject
deriving DecidableEq, Repr

/-! ### Single arguments -/

/-- What an argument before `--` says by itself. -/
inductive Argument where
  | path (text : String)
  | code (text : String)
  /-- The program text is the next argument. -/
  | codeFollows
  | flag (f : Flag)
  | version
  | help
  /-- Only paths follow. -/
  | pathsFollow
  | unknown
deriving DecidableEq, Repr

namespace Argument

/-- An argument that starts with two dashes, which are left out. -/
def ofLong (cs : List Char) : Argument :=
  let name := String.ofList (cs.takeWhile (· != '='))
  match cs.dropWhile (· != '=') with
  | _ :: value => if name = "code" then code (String.ofList value) else unknown
  | [] =>
    if name = "" then pathsFollow
    else if name = "code" then codeFollows
    else if name = "version" then version
    else if name = "help" then help
    else match Flag.ofName? name with
      | some f => flag f
      | none => unknown

/-- An argument that starts with one dash, which is left out. -/
def ofShort : List Char → Argument
  | [] => codeFollows
  | ['c'] => codeFollows
  | 'c' :: '=' :: value => code (String.ofList value)
  | 'c' :: value => code (String.ofList value)
  | 'V' :: _ => version
  | 'h' :: _ => help
  | _ => unknown

/-- What an argument says. -/
def ofString (argument : String) : Argument :=
  match argument.toList with
  | '-' :: '-' :: cs => ofLong cs
  | '-' :: cs => ofShort cs
  | _ => path argument

end Argument

/-! ### Command lines -/

namespace Invocation

/-- Ends the reading: a text and a path exclude each other. -/
def finish (o : Options) : Invocation :=
  if o.code.isSome && o.path.isSome then reject else run o

/-- Reads arguments that are all paths. -/
def ofPaths (o : Options) : List String → Invocation
  | [] => finish o
  | path :: rest =>
    match o.addPath path with
    | some o => ofPaths o rest
    | none => reject

/-- Reads the arguments that follow those in the options. -/
def ofArguments (o : Options) : List String → Invocation
  | [] => finish o
  | argument :: rest =>
    match Argument.ofString argument with
    | .path path =>
      match o.addPath path with
      | some o => ofArguments o rest
      | none => reject
    | .code code =>
      match o.addCode code with
      | some o => ofArguments o rest
      | none => reject
    | .codeFollows =>
      match rest with
      | [] => reject
      | code :: rest =>
        match o.addCode code with
        | some o => ofArguments o rest
        | none => reject
    | .flag f =>
      match o.addFlag f with
      | some o => ofArguments o rest
      | none => reject
    | .version => version
    | .help => help
    | .pathsFollow => ofPaths o rest
    | .unknown => reject

/-- A lone dash stands for the option that introduces a program text. -/
def expandDash (argument : String) : String := if argument = "-" then "--code" else argument

/-- Reads a command line. -/
def ofCommandLine (arguments : List String) : Invocation :=
  ofArguments {} (arguments.map expandDash)

end Invocation
end TwinTape
