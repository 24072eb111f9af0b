import TwinTape.Event
import TwinTape.Memory.Action
import TwinTape.Program
import TwinTape.Text

/-! # The machine

A machine is one session.  The global memory lives as long as the session, so a program finds
what the programs before it have left; loading a program resets everything else that belongs to
a run.

* `Machine.load` starts a program, `Machine.runText` compiles a text and starts it.  A text that
  does not compile stops the machine, and the fault is the next event.
* `Machine.enter` answers a program that waits for a line.
* `Machine.interrupt` asks a running program to stop.

What a machine may do next is its `Phase`: a line can be there only for a program that asked,
and a repetition can be left over only while a program runs. -/

namespace TwinTape

/-- What is left of an action that is repeated. -/
structure Repetition where
  action : Action
  left : Nat
  /-- The program has been warned in this instruction. -/
  warned : Bool
deriving DecidableEq, Repr

/-- What a machine does when it is asked to go on. -/
inductive Phase where
  /-- Nothing: no program is running. -/
  | idle
  /-- Execute the next instruction. -/
  | ready
  /-- Ask for a line, which the instruction at the counter needs. -/
  | waiting
  /-- Give the line to the instruction at the counter. -/
  | supplied (line : List Char)
  /-- Go on with the repetition at the counter. -/
  | repeating (rest : Repetition)
deriving DecidableEq, Repr

/-- The state of a session. -/
structure Machine where
  global : Memory := {}
  «local» : Memory := {}
  program : Program := .empty
  /-- The address of the next instruction. -/
  counter : Nat := 0
  /-- The opening brackets whose last execution went into the body. -/
  entered : List Nat := []
  phase : Phase := .idle
  /-- The host asked the program to stop. -/
  interrupted : Bool := false
  /-- Executed instructions are reported. -/
  tracing : Bool := false
  /-- Notices the host has not got yet, the oldest first. -/
  queue : List Notice := []
  /-- Random numbers drawn so far. -/
  drawn : Nat := 0
deriving Repr

namespace Machine

instance : Inhabited Machine := ⟨{}⟩

/-! ### Views -/

/-- A program is running. -/
def isRunning (m : Machine) : Bool := m.phase != .idle

/-- The program waits for a line. -/
def isWaiting (m : Machine) : Bool := m.phase == .waiting

/-- The memory of a scope. -/
def memory (m : Machine) : Scope → Memory
  | .global => m.global
  | .local => m.local

/-- Replaces the memory of a scope. -/
def setMemory (m : Machine) (s : Scope) (memory : Memory) : Machine :=
  match s with
  | .global => { m with global := memory }
  | .local => { m with «local» := memory }

@[simp] theorem memory_setMemory_same (m : Machine) (s : Scope) (memory : Memory) :
    (m.setMemory s memory).memory s = memory := by cases s <;> rfl

/-! ### What the host does -/

/-- Ends the run.  Notices that wait and an interrupt stay. -/
def stop (m : Machine) : Machine := { m with phase := .idle }

/-- Starts a program with a fresh local memory. -/
def load (m : Machine) (program : Program) : Machine :=
  { m with
    program := program
    «local» := {}
    counter := 0
    entered := []
    phase := .ready
    interrupted := false
    queue := [] }

/-- Compiles a text and starts it; a fault is kept for the next call. -/
def runText (m : Machine) (source text : String) : Machine :=
  match Program.compile source text with
  | .ok program => m.load program
  | .error fault => { m.stop with queue := [.fault fault] }

/-- Gives a line, without line ends after it, to a program that waits for one; tells if it did. -/
def enter (m : Machine) (line : List Char) : Bool × Machine :=
  if m.isWaiting then
    let line := Text.dropEndWhile (fun c => c == '\r' || c == '\n') line
    (true, { m with phase := .supplied line })
  else (false, m)

/-- Asks a running program to stop. -/
def interrupt (m : Machine) : Machine :=
  if m.isRunning then { m with interrupted := true } else m

/-- Switches the report of executed instructions on or off. -/
def setTracing (m : Machine) (on : Bool) : Machine := { m with tracing := on }

end Machine
/-! ### Random draws

A run takes its random numbers from a sequence that is fixed beforehand, so a run is a function
of its inputs. -/

/-- The numbers drawn in a session, in order. -/
abbrev Draws := Nat → Float

namespace Draws

/-- Spreads every bit of a word over all bits of the result. -/
def scramble (z : UInt64) : UInt64 :=
  let z := (z ^^^ (z >>> 30)) * 0xbf58476d1ce4e5b9
  let z := (z ^^^ (z >>> 27)) * 0x94d049bb133111eb
  z ^^^ (z >>> 31)

/-- The sequence of a seed: numbers from zero to below one, each computed from its index
alone. -/
def ofSeed (seed : UInt64) : Draws := fun index =>
  let word := scramble (seed + UInt64.ofNat (index + 1) * 0x9e3779b97f4a7c15)
  (word >>> 11).toFloat / 9007199254740992.0

end Draws

end TwinTape
