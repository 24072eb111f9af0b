import TwinTape.Machine.Step

/-! # Running a machine

The host calls `Machine.execute` with a budget of steps and gets one event.  Notices that wait
come first; then an interrupt ends the run; then the program goes on until it has an event to
tell, or the budget is used up. -/

namespace TwinTape.Machine

/-- Queues the report that the instruction at `address` was executed, if such reports are wanted
and the instruction is complete. -/
def traced (m : Machine) (address : Nat) : Machine :=
  match m.phase with
  | .repeating _ => m
  | _ => if m.tracing then m.push (.trace address) else m

/-- Steps until there is an event, at most as often as the budget says. -/
def run (draws : Draws) : Nat → Machine → Event × Machine
  | 0, m => (.running, m)
  | budget + 1, m =>
    if m.program.size ≤ m.counter then (.stopped, m.stop)
    else match m.step draws with
      | .error fault =>
        (.notice (.fault (fault.inSource m.program.source)), { m.stop with queue := [] })
      | .ok (next, some medium) => (.input medium, next)
      | .ok (next, none) =>
        match (next.traced m.counter).queue with
        | n :: queue => (.notice n, { next with queue := queue })
        | [] => run draws budget next

/-- One event, after at most `budget` steps. -/
def execute (draws : Draws) (budget : Nat) (m : Machine) : Event × Machine :=
  match m.queue with
  | n :: queue => (.notice n, { m with queue := queue })
  | [] =>
    if m.interrupted then
      let fault : Fault := { kind := .interrupted }
      let fault := (fault.located (m.program.position m.counter)).inSource m.program.source
      (.notice (.fault fault), { m.stop with interrupted := false })
    else if m.isRunning then m.run draws budget
    else (.stopped, m)

/-! ### A host that answers -/

/-- Collects events until there are `limit` of them, the machine has stopped, or it waits for a
line and none is left.  Each time the machine waits for a line it gets the next one. -/
def drain (draws : Draws) (budget : Nat) : Nat → List (List Char) → Machine → List Event × Machine
  | 0, _, m => ([], m)
  | limit + 1, lines, m =>
    let (event, m) := m.execute draws budget
    match event, lines with
    | .stopped, _ => ([event], m)
    | .input _, [] => ([event], m)
    | .input _, line :: lines =>
      let (events, m) := drain draws budget limit lines (m.enter line).2
      (event :: events, m)
    | _, _ =>
      let (events, m) := drain draws budget limit lines m
      (event :: events, m)

end TwinTape.Machine
