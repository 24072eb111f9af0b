import TwinTape.Machine
import TwinTape.Number.Reader

/-! # One step of a machine

A step executes the instruction at the counter, or as much of it as fits in one step: an action
is repeated at most `Machine.burst` times, and the rest is left for the next steps.  A step may
end in a fault, and then it has changed nothing; or the program waits for a line.

Loops.  A bracket without a partner is a fault whenever it is executed.  An opening bracket that
tests first skips its loop when the cell is zero.  One that tests last skips it only if the cell
is zero and its execution before went into the body, which is what `Machine.entered` remembers.
A closing bracket goes back into the loop, past the opening bracket, unless the cell is zero. -/

namespace TwinTape

/-! ### How often an action is done -/

/-- An action done `n` times, or its opposite if `n` is negative. -/
def Action.signed (a : Action) (n : Int) : Action × Nat :=
  if n < 0 then (a.opposite, n.natAbs) else (a, n.natAbs)

/-- The integer of 64 bits nearest to `n`. -/
def Repeat.saturate (n : Int) : Int :=
  if n < Int64.minValue.toInt then Int64.minValue.toInt
  else if Int64.maxValue.toInt < n then Int64.maxValue.toInt
  else n

/-- The action and how often it is done, given the active cell; none if the count comes from a
cell that is infinite or not a number. -/
def Repeat.resolve? (times : Repeat) (a : Action) (cell : Float) : Option (Action × Nat) :=
  match times with
  | .once => some (a, 1)
  | .times n => some (a.signed n.toInt)
  | .byCell => (Binary.ofFloat cell).floor?.map fun n => a.signed (saturate n)

/-! ### Characters and lines -/

/-- The character whose code point is the floor of a cell. -/
def characterOf? (cell : Float) : Option Char :=
  match (Binary.ofFloat cell).floor? with
  | some code => if 0 ≤ code ∧ code.toNat.isValidChar then some (Char.ofNat code.toNat) else none
  | none => none

/-- The number that a line stands for: the number written on it, or the code point of its first
character. -/
def Medium.read : Medium → List Char → Except Fault Float
  | .number, line =>
    match Reader.number? (Text.trim line) with
    | some x => .ok x
    | none => .error { kind := .invalidNumber }
  | .character, c :: _ => .ok (Float.ofNat c.toNat)
  | .character, [] => .error .emptyLine

/-- What a cell prints as. -/
def Medium.write : Medium → Float → Except Fault Output
  | .number, x => .ok (.number x)
  | .character, x =>
    match characterOf? x with
    | some c => .ok (.character c)
    | none => .error { kind := .invalidCharacter }

namespace Machine

/-- Repetitions done in one step. -/
def burst : Nat := 1024

/-- Makes `address` the next one to be executed. -/
def goto (m : Machine) (address : Nat) : Machine := { m with counter := address }

/-- Goes on to the next instruction. -/
def advance (m : Machine) : Machine := m.goto (m.counter + 1)

/-- Queues a notice for the host. -/
def push (m : Machine) (n : Notice) : Machine := { m with queue := m.queue ++ [n] }

/-- Remembers that the bracket at the counter went into its body. -/
def markEntered (m : Machine) : Machine := { m with entered := m.entered.insert m.counter }

/-- Forgets that the bracket at the counter went into its body. -/
def unmarkEntered (m : Machine) : Machine := { m with entered := m.entered.erase m.counter }

/-- The active cell of a scope is zero. -/
def isZero (m : Machine) (s : Scope) : Bool := (m.memory s).cell == 0.0

/-! ### Actions -/

/-- The repetition to go on with, or to start. -/
def repetition? (m : Machine) (s : Scope) (times : Repeat) (a : Action) : Option Repetition :=
  match m.phase with
  | .repeating rest => some rest
  | _ => (times.resolve? a (m.memory s).cell).map fun (action, n) => ⟨action, n, false⟩

/-- Does one burst of a repetition. -/
def repeatBurst (m : Machine) (s : Scope) (r : Repetition) : Machine :=
  let (memory, warned) := (m.memory s).actTimes r.action (min r.left burst) r.warned
  let m := m.setMemory s memory
  let m := if warned && !r.warned then m.push (.warning .tooLeft) else m
  if burst < r.left then { m with phase := .repeating ⟨r.action, r.left - burst, warned⟩ }
  else { m.advance with phase := .ready }

/-! ### Operations -/

/-- Executes an opening bracket whose partner is at `target`. -/
def stepOpening (m : Machine) (s : Scope) (form : LoopForm) (target : Nat) : Machine :=
  let skips := match form with
    | .testFirst => m.isZero s
    | .testLast => m.isZero s && m.entered.contains m.counter
  if skips then m.unmarkEntered.goto (target + 1) else m.markEntered.advance

/-- Executes a closing bracket whose partner is at `target`. -/
def stepClosing (m : Machine) (s : Scope) (target : Nat) : Machine :=
  if m.isZero s then m.unmarkEntered.advance else m.goto (target + 1)

/-- Executes a bracket by `go`, which is given the address of its partner. -/
def stepBracket (m : Machine) (go : Nat → Machine) : Except Fault Machine :=
  match m.program.jumps.target? m.counter with
  | some target => .ok (go target)
  | none => .error { kind := .unmatchedBracket }

/-- Executes an operation; tells what the program waits for if it can not go on. -/
def stepOperation (draws : Draws) (m : Machine) (s : Scope) :
    Operation → Except Fault (Machine × Option Medium)
  | .random =>
    .ok ({ m.setMemory s ((m.memory s).set (draws m.drawn)) with drawn := m.drawn + 1 }.advance, none)
  | .switchTape => .ok ((m.setMemory s (m.memory s).switch).advance, none)
  | .output medium => do
    let output ← medium.write (m.memory s).cell
    return ((m.push (.print output)).advance, none)
  | .input medium =>
    match m.phase with
    | .supplied line => do
      let x ← medium.read line
      return ({ m.setMemory s ((m.memory s).set x) with phase := .ready }.advance, none)
    | _ => .ok ({ m with phase := .waiting }, some medium)
  | .opening form => do
    let m ← m.stepBracket (m.stepOpening s form)
    return (m, none)
  | .closing _ => do
    let m ← m.stepBracket (m.stepClosing s)
    return (m, none)
  | .reserved _ => .ok (m.advance, none)

/-- Exchanges the active cells of the two memories. -/
def swapCells (m : Machine) : Machine :=
  { m with global := m.global.set m.local.cell, «local» := m.local.set m.global.cell }

/-! ### Instructions -/

/-- Executes an instruction. -/
def stepInstruction (draws : Draws) (m : Machine) :
    Instruction → Except Fault (Machine × Option Medium)
  | .act s times a =>
    match m.repetition? s times a with
    | some r => .ok (m.repeatBurst s r, none)
    | none => .error .countNotFinite
  | .perform s o => stepOperation draws m s o
  | .swap => .ok (m.swapCells.advance, none)

/-- Executes the instruction at the counter; a fault is at the place of the instruction. -/
def step (draws : Draws) (m : Machine) : Except Fault (Machine × Option Medium) :=
  match m.program.instruction? m.counter with
  | none => .error .counterOutOfRange
  | some i => (stepInstruction draws m i).mapError (·.located (m.program.position m.counter))

end Machine
end TwinTape
