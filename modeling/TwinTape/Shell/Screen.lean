import TwinTape.Event

/-! # The screen

What the shell has written, and whether the last line is open.  A program prints wherever it
is; a report starts a line of its own and ends it. -/

namespace TwinTape

/-- What a report is about. -/
inductive Level where
  | error
  | warning
  | debug
  | heavyDebug
deriving DecidableEq, Repr

namespace Level

/-- The word at the start of a report. -/
def word : Level → String
  | error => "ERROR"
  | warning => "WARNING"
  | debug => "DEBUG"
  | heavyDebug => "HEAVY DEBUG"

/-- The width of the column of words. -/
def width : Nat := 12

/-- The word, filled up with spaces. -/
def label (level : Level) : String :=
  level.word ++ String.ofList (List.replicate (width - level.word.length) ' ')

end Level

/-- Whether a printed text ends a line. -/
def Output.endsLine : Output → Bool
  | number _ => false
  | character c => c == '\n'

/-- What is written, and whether the last line is open. -/
structure Screen where
  text : String := ""
  midLine : Bool := false
deriving DecidableEq, Repr

namespace Screen

/-- Writes what a program prints. -/
def print (screen : Screen) (output : Output) : Screen :=
  ⟨screen.text ++ output.text, !output.endsLine⟩

/-- Ends an open line. -/
def finishLine (screen : Screen) : Screen :=
  if screen.midLine then ⟨screen.text ++ "\n", false⟩ else screen

/-- Writes a report on a line of its own. -/
def report (screen : Screen) (level : Level) (text : String) : Screen :=
  let screen := screen.finishLine
  { screen with text := screen.text ++ level.label ++ text ++ "\n" }

end Screen
end TwinTape
