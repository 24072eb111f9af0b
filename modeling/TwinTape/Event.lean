import TwinTape.Fault
import TwinTape.Command
import TwinTape.Number.Style

/-! # Events

A machine talks to its host in events: that it has stopped, goes on or waits for a line, or a
notice of something that happened.  The host gets one event for each call, so notices may have
to wait; the other events never do. -/

namespace TwinTape

/-- What a program prints. -/
inductive Output where
  | number (x : Float)
  | character (c : Char)
deriving Repr

/-- The printed text. -/
def Output.text : Output → String
  | number x => Style.printed.text x
  | character c => String.singleton c

/-- What a program may be warned of. -/
inductive Warning where
  /-- The cursor walked off the left end of a tape. -/
  | tooLeft
deriving DecidableEq, Repr

/-- The name by which a warning is switched off. -/
def Warning.name : Warning → String
  | tooLeft => "too-left-pointer"

/-- The words of a warning. -/
def Warning.text : Warning → String
  | tooLeft =>
    "You moved to the -1 index in memory. " ++
    "This will not crash the program, but should generally be avoided"

/-- What happened while a program ran. -/
inductive Notice where
  | print (output : Output)
  | warning (warning : Warning)
  /-- The instruction at an address was executed. -/
  | trace (address : Nat)
  /-- The program failed, or was no program. -/
  | fault (fault : Fault)
deriving Repr

/-- What a machine tells its host. -/
inductive Event where
  /-- Nothing is running. -/
  | stopped
  /-- The budget is used up and the program goes on. -/
  | running
  /-- The program waits for a line. -/
  | input (medium : Medium)
  /-- Something happened. -/
  | notice (what : Notice)
deriving Repr

end TwinTape
