import TwinTape.Machine.Execute

/-! # The machine in registers

The machine once more, with every part of its state in a register of its own.  A tape is a row of
cells and an index; a memory is two tapes and the index of the active one.  What the machine does
next is spread over four registers: a program runs, it waits for a line, a line was given, a
repetition is not finished.  A call sets the registers it has to set one by one.

Nothing keeps the registers from contradicting each other.  If they do, an index may be out of
range, or a command that is no action be done to a tape; then a call ends in a `Breakage`. -/

namespace TwinTape

/-- What registers that contradict each other can lead to. -/
inductive Breakage where
  /-- An index is out of range. -/
  | index
  /-- A command to be done to a tape is no action. -/
  | noAction
deriving DecidableEq, Repr

/-! ### Rows and banks -/

/-- The cells of a tape from left to right, and the index of the one under the cursor. -/
structure Row where
  cells : List Float := [0.0]
  cursor : Nat := 0
deriving Repr

namespace Row

/-- The cell under the cursor. -/
def get (row : Row) : Except Breakage Float :=
  match row.cells[row.cursor]? with
  | some x => .ok x
  | none => .error .index

/-- Writes the cell under the cursor. -/
def set (row : Row) (x : Float) : Except Breakage Row :=
  if row.cursor < row.cells.length then .ok { row with cells := row.cells.set row.cursor x }
  else .error .index

/-- Moves one cell to the right, and adds a cell if there is none. -/
def right (row : Row) : Row :=
  let row := { row with cursor := row.cursor + 1 }
  if row.cells.length ≤ row.cursor then { row with cells := row.cells ++ [0.0] } else row

/-- Moves one cell to the left, or adds a cell if there is none; tells if there was one. -/
def left (row : Row) : Row × Bool :=
  if row.cursor = 0 then ({ row with cells := 0.0 :: row.cells }, false)
  else ({ row with cursor := row.cursor - 1 }, true)

end Row

/-- Two tapes and the index of the active one. -/
structure Bank where
  first : Row := {}
  second : Row := {}
  active : Nat := 0
deriving Repr

namespace Bank

/-- The tape with an index. -/
def tape (b : Bank) : Nat → Except Breakage Row
  | 0 => .ok b.first
  | 1 => .ok b.second
  | _ => .error .index

/-- Replaces the tape with an index. -/
def setTape (b : Bank) (index : Nat) (row : Row) : Except Breakage Bank :=
  match index with
  | 0 => .ok { b with first := row }
  | 1 => .ok { b with second := row }
  | _ => .error .index

/-- The index of the tape that is not active. -/
def other (b : Bank) : Except Breakage Nat :=
  if b.active ≤ 1 then .ok (1 - b.active) else .error .index

/-- The active cell. -/
def cell (b : Bank) : Except Breakage Float := do
  (← b.tape b.active).get

/-- The cell under the cursor of the other tape. -/
def otherCell (b : Bank) : Except Breakage Float := do
  (← b.tape (← b.other)).get

/-- Writes the active cell. -/
def setCell (b : Bank) (x : Float) : Except Breakage Bank := do
  b.setTape b.active (← (← b.tape b.active).set x)

/-- Changes the active cell. -/
def modifyCell (b : Bank) (f : Float → Float) : Except Breakage Bank := do
  b.setCell (f (← b.cell))

/-- Makes the other tape active. -/
def switch (b : Bank) : Except Breakage Bank := do
  return { b with active := ← b.other }

/-- Does an action once; tells if the cursor stayed on the tape. -/
def operate (b : Bank) (command : Command) : Except Breakage (Bank × Bool) := do
  let operand ← b.otherCell
  match command with
  | .act .increment => return (← b.modifyCell (· + 1.0), true)
  | .act .decrement => return (← b.modifyCell (· - 1.0), true)
  | .act .add => return (← b.modifyCell (· + operand), true)
  | .act .subtract => return (← b.modifyCell (· - operand), true)
  | .act .multiply => return (← b.modifyCell (· * operand), true)
  | .act .divide => return (← b.modifyCell (· / operand), true)
  | .act .moveRight => return (← b.setTape b.active (← b.tape b.active).right, true)
  | .act .moveLeft => do
    let (row, stayed) := (← b.tape b.active).left
    return (← b.setTape b.active row, stayed)
  | .perform _ => .error .noAction
  | .swap => .error .noAction

end Bank

/-! ### Registers -/

/-- What is left of a command that is repeated. -/
structure Unfinished where
  command : Command
  left : Nat
  /-- The program has been warned in this instruction. -/
  warned : Bool
deriving DecidableEq, Repr

/-- The state of a session, part by part. -/
structure Registers where
  global : Bank := {}
  «local» : Bank := {}
  program : Program := .empty
  /-- The address of the next instruction. -/
  counter : Nat := 0
  /-- The opening brackets whose last execution went into the body. -/
  entered : List Nat := []
  /-- The line that was given. -/
  input : Option (List Char) := none
  /-- The program waits for a line. -/
  waiting : Bool := false
  /-- A program runs. -/
  running : Bool := false
  /-- The host asked the program to stop. -/
  interrupted : Bool := false
  /-- Executed instructions are reported. -/
  tracing : Bool := false
  /-- Events the host has not got yet, the oldest first. -/
  events : List Event := []
  repeating : Option Unfinished := none
  /-- Random numbers drawn so far. -/
  drawn : Nat := 0
deriving Repr

namespace Registers

/-- The bank of a scope. -/
def bank (r : Registers) : Scope → Bank
  | .global => r.global
  | .local => r.local

/-- Replaces the bank of a scope. -/
def setBank (r : Registers) (s : Scope) (b : Bank) : Registers :=
  match s with
  | .global => { r with global := b }
  | .local => { r with «local» := b }

/-- Queues an event for the host. -/
def push (r : Registers) (e : Event) : Registers := { r with events := r.events ++ [e] }

/-! ### What the host does -/

/-- Ends the run. -/
def stop (r : Registers) : Registers :=
  { r with running := false, waiting := false, input := none, repeating := none }

/-- Starts a program. -/
def load (r : Registers) (program : Program) : Registers :=
  { r with
    program := program
    «local» := {}
    counter := 0
    entered := []
    input := none
    waiting := false
    interrupted := false
    repeating := none
    events := []
    running := true }

/-- Compiles a text and starts it; a fault is kept for the next call. -/
def runText (r : Registers) (source text : String) : Registers :=
  match Program.compile source text with
  | .ok program => r.load program
  | .error fault => { r.stop with events := [.notice (.fault fault)] }

/-- Gives a line to a program that waits for one; tells if it did. -/
def enter (r : Registers) (line : List Char) : Bool × Registers :=
  if r.waiting then
    let line := Text.dropEndWhile (fun c => c == '\r' || c == '\n') line
    (true, { r with waiting := false, input := some line })
  else (false, r)

/-- Asks a running program to stop. -/
def interrupt (r : Registers) : Registers :=
  if r.running then { r with interrupted := true } else r

/-- Switches the report of executed instructions on or off. -/
def setTracing (r : Registers) (on : Bool) : Registers := { r with tracing := on }

/-! ### One step -/

/-- How a step ends: in a fault, or with an event if the program has to wait. -/
abbrev Outcome := Except Fault (Option Event) × Registers

/-- Ends a step in a fault at the place of the instruction. -/
def fail (r : Registers) (fault : Fault) : Outcome :=
  (.error (fault.located (r.program.position r.counter)), r)

/-- Ends a step and goes on to the next instruction. -/
def proceed (r : Registers) : Outcome := (.ok none, { r with counter := r.counter + 1 })

/-- A command and how often it is done; a negative count asks for the opposite. -/
def signed (command : Command) (n : Int) : Command × Nat :=
  if n < 0 then
    match command.opposite? with
    | some opposite => (opposite, n.natAbs)
    | none => (command, 0)
  else (command, n.natAbs)

/-- The command of an instruction and how often it is done, given the active cell; none if the
count comes from a cell that is infinite or not a number. -/
def resolve? (i : Instruction) (cell : Float) : Option (Command × Nat) :=
  match i.times with
  | .once => some (i.command, 1)
  | .times n => some (signed i.command n.toInt)
  | .byCell => (Binary.ofFloat cell).floor?.map fun n => signed i.command (Repeat.saturate n)

/-- Does a command a number of times.  The first time the cursor falls off its tape there is a
warning, unless the program has been warned; tells if it has been warned by the end. -/
def operateTimes (s : Scope) (command : Command) :
    Nat → Registers → Bool → Except Breakage (Registers × Bool)
  | 0, r, warned => .ok (r, warned)
  | n + 1, r, warned => do
    let (b, stayed) ← (r.bank s).operate command
    let r := r.setBank s b
    if !stayed && !warned then
      operateTimes s command n (r.push (.notice (.warning .tooLeft))) true
    else operateTimes s command n r warned

/-- Does one burst of an action. -/
def act (r : Registers) (s : Scope) (command : Command) (count : Nat) :
    Except Breakage Outcome := do
  let warned := r.repeating.any (·.warned)
  let burst := min count Machine.burst
  let (r, warned) ← operateTimes s command burst { r with repeating := none } warned
  if burst < count then
    return (.ok none, { r with repeating := some ⟨command, count - burst, warned⟩ })
  else return r.proceed

/-- Executes an operation, given the active cell. -/
def stepOperation (draws : Draws) (r : Registers) (s : Scope) (cell : Float) :
    Operation → Except Breakage Outcome
  | .random => do
    let b ← (r.bank s).setCell (draws r.drawn)
    return { r.setBank s b with drawn := r.drawn + 1 }.proceed
  | .switchTape => do
    let b ← (r.bank s).switch
    return (r.setBank s b).proceed
  | .output medium =>
    match medium.write cell with
    | .ok output => .ok (r.push (.notice (.print output))).proceed
    | .error fault => .ok (r.fail fault)
  | .input medium =>
    match r.input with
    | none => .ok (.ok (some (.input medium)), { r with waiting := true })
    | some line =>
      let r := { r with input := none }
      match medium.read line with
      | .ok x => do
        let b ← (r.bank s).setCell x
        return (r.setBank s b).proceed
      | .error fault => .ok (r.fail fault)
  | .opening form =>
    match r.program.jumps.target? r.counter with
    | none => .ok (r.fail { kind := .unmatchedBracket })
    | some target =>
      if cell == 0.0 && (form == .testFirst || r.entered.contains r.counter) then
        .ok { r with entered := r.entered.erase r.counter, counter := target }.proceed
      else .ok { r with entered := r.entered.insert r.counter }.proceed
  | .closing _ =>
    match r.program.jumps.target? r.counter with
    | none => .ok (r.fail { kind := .unmatchedBracket })
    | some target =>
      if cell == 0.0 then .ok { r with entered := r.entered.erase r.counter }.proceed
      else .ok { r with counter := target }.proceed
  | .reserved _ => .ok r.proceed

/-- Exchanges the active cells of the two banks. -/
def swapCells (r : Registers) : Except Breakage Registers := do
  let x ← r.global.cell
  let y ← r.local.cell
  return { r with global := ← r.global.setCell y, «local» := ← r.local.setCell x }

/-- The command to be done and how often: the rest of a repetition, or what the instruction
says. -/
def pending? (r : Registers) (i : Instruction) (cell : Float) : Option (Command × Nat) :=
  match r.repeating with
  | some rest => some (rest.command, rest.left)
  | none => resolve? i cell

/-- Does a command, given the active cell. -/
def dispatch (draws : Draws) (r : Registers) (s : Scope) (cell : Float) :
    Command × Nat → Except Breakage Outcome
  | (.act a, count) => r.act s (.act a) count
  | (.perform o, _) => r.stepOperation draws s cell o
  | (.swap, _) => do return (← r.swapCells).proceed

/-- Executes the instruction at the counter, or goes on with the repetition there. -/
def step (draws : Draws) (r : Registers) : Except Breakage Outcome :=
  match r.program.instruction? r.counter with
  | none => .ok (.error .counterOutOfRange, r)
  | some i => do
    let cell ← (r.bank i.scope).cell
    match r.pending? i cell with
    | none => return r.fail .countNotFinite
    | some todo => r.dispatch draws i.scope cell todo

/-! ### Calls for an event -/

/-- Queues the report that the instruction at `address` was executed, if such reports are wanted
and the instruction is complete. -/
def traced (r : Registers) (address : Nat) : Registers :=
  if r.tracing && r.repeating.isNone then r.push (.notice (.trace address)) else r

/-- Steps until there is an event, at most as often as the budget says. -/
def run (draws : Draws) : Nat → Registers → Except Breakage (Event × Registers)
  | 0, r => .ok (.running, r)
  | budget + 1, r =>
    if r.program.size ≤ r.counter then .ok (.stopped, r.stop)
    else match r.step draws with
      | .error breakage => .error breakage
      | .ok (.ok (some event), next) => .ok (event, next)
      | .ok (.error fault, next) =>
        .ok (.notice (.fault (fault.inSource next.program.source)), { next.stop with events := [] })
      | .ok (.ok none, next) =>
        match (next.traced r.counter).events with
        | event :: events => .ok (event, { next with events := events })
        | [] => run draws budget next

/-- One event, after at most `budget` steps. -/
def execute (draws : Draws) (budget : Nat) (r : Registers) :
    Except Breakage (Event × Registers) :=
  match r.events with
  | event :: events => .ok (event, { r with events := events })
  | [] =>
    if r.interrupted then
      let r := { r with interrupted := false }
      let fault : Fault := { kind := .interrupted }
      let fault := (fault.located (r.program.position r.counter)).inSource r.program.source
      .ok (.notice (.fault fault), r.stop)
    else if r.running then r.run draws budget
    else .ok (.stopped, r)

end Registers
end TwinTape
