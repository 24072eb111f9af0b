import TwinTape.Proofs.Calls
import TwinTape.Proofs.Walks
import TwinTape.Registers

/-! # The registers of a machine

`Registers.of` writes a machine into registers.  Whatever is done to the registers of a machine,
they are the registers of the machine to which the same is done: one lemma says so for each
operation on a tape or a memory, for a burst of an action (`act_of`), for a step (`step_of`,
`step_of_error`), and for a call of the host (`perform_of`).  So calls of a host from the start give
the same answers in registers as in a machine, and there is no breakage (`performAll_of`). -/

namespace TwinTape

/-! ### Rows and banks -/

/-- The row of a tape. -/
def Row.of (t : Tape) : Row := ⟨t.cells, t.cursor⟩

namespace Row
variable (t : Tape)

theorem cursor_lt : (Row.of t).cursor < (Row.of t).cells.length := by
  rw [of, t.length_cells]
  exact t.cursor_lt_size

theorem get_of : (Row.of t).get = .ok t.cell := by
  simp [get, of, t.getElem?_cells_cursor]

theorem set_of (x : Float) : (Row.of t).set x = .ok (.of (t.set x)) := by
  rw [set, if_pos (cursor_lt t), of, of, t.cells_set, t.cursor_set]

theorem right_of : (Row.of t).right = .of t.right := by
  simp only [right, of, t.cells_right, t.cursor_right, t.length_cells]
  by_cases h : t.cursor + 1 < t.size
  · rw [if_pos h, if_neg (by omega)]
  · rw [if_neg h, if_pos (by omega)]

theorem left_of : (Row.of t).left = (.of t.left, !t.isLeftmost) := by
  have hleft := t.isLeftmost_iff
  unfold left of
  rw [t.cells_left, t.cursor_left]
  by_cases h : t.cursor = 0
  · simp [h, hleft.2 h]
  · simp [h, Bool.eq_false_iff.2 (mt hleft.1 h)]

end Row

theorem Memory.set_eq_act (m : Memory) {a : Action} {x : Float}
    (h : m.activeTape.set x = m.activeTape.act m.otherCell a) : m.set x = m.act a := by
  unfold set act
  obtain ⟨first, second, active⟩ := m
  cases active with
  | first => exact congrArg (fun tape => Memory.mk tape second .first) h
  | second => exact congrArg (fun tape => Memory.mk first tape .second) h

/-- The bank of a memory. -/
def Bank.of (m : Memory) : Bank := ⟨.of m.first, .of m.second, m.active.index⟩

namespace Bank
variable (m : Memory)

theorem tape_of (side : Side) : (Bank.of m).tape side.index = .ok (.of (m.tape side)) := by
  cases side <;> rfl

theorem setTape_of (f : Tape → Tape) :
    (Bank.of m).setTape (Bank.of m).active (.of (f m.activeTape)) = .ok (.of (m.modify f)) := by
  obtain ⟨first, second, active⟩ := m
  cases active <;> rfl

theorem activeTape_of : (Bank.of m).tape (Bank.of m).active = .ok (.of m.activeTape) :=
  tape_of m m.active

theorem other_of : (Bank.of m).other = .ok m.active.other.index := by
  obtain ⟨first, second, active⟩ := m
  cases active <;> rfl

theorem cell_of : (Bank.of m).cell = .ok m.cell := by
  rw [cell, activeTape_of]
  exact Row.get_of _

theorem otherCell_of : (Bank.of m).otherCell = .ok m.otherCell := by
  simp only [otherCell, other_of, bind, Except.bind, tape_of]
  exact Row.get_of _

theorem setCell_of (x : Float) : (Bank.of m).setCell x = .ok (.of (m.set x)) := by
  simp only [setCell, activeTape_of, bind, Except.bind, Row.set_of]
  exact setTape_of m (·.set x)

theorem modifyCell_of (f : Float → Float) :
    (Bank.of m).modifyCell f = .ok (.of (m.set (f m.cell))) := by
  simp only [modifyCell, cell_of, bind, Except.bind]
  exact setCell_of m _

theorem switch_of : (Bank.of m).switch = .ok (.of m.switch) := by
  rw [switch, other_of]
  rfl

theorem operate_of (a : Action) :
    (Bank.of m).operate (.act a) = .ok (.of (m.act a), !m.fallsLeft a) := by
  simp only [operate, otherCell_of, bind, Except.bind, pure, Except.pure]
  cases a with
  | increment | decrement | add | subtract | multiply | divide =>
      simp only [modifyCell_of]
      exact congrArg (fun memory => Except.ok (of memory, true)) (m.set_eq_act rfl)
  | moveRight =>
      simp only [activeTape_of, Row.right_of]
      rw [setTape_of m (·.right)]
      rfl
  | moveLeft =>
      simp only [activeTape_of, Row.left_of]
      rw [setTape_of m (·.left)]
      rfl

end Bank

/-! ### Registers of a machine -/

/-- The machine in registers. -/
def Registers.of (m : Machine) : Registers where
  global := .of m.global
  «local» := .of m.local
  program := m.program
  counter := m.counter
  entered := m.entered
  input := m.line?
  waiting := m.isWaiting
  running := m.isRunning
  interrupted := m.interrupted
  tracing := m.tracing
  events := m.queue.map .notice
  repeating := m.unfinished?.map fun rest => ⟨.act rest.action, rest.left, rest.warned⟩
  drawn := m.drawn

namespace Registers
variable {draws : Draws} {m next : Machine} {wait : Option Medium}

/-- A machine whose phase is known: the registers of the phase can be read off. -/
theorem eq_setPhase {p : Phase} (h : m.phase = p) : m = { m with phase := p } := by
  rw [← h]

theorem input_of {line : List Char} (h : m.phase = .supplied line) : (of m).input = some line := by
  rw [eq_setPhase h]
  rfl

theorem repeating_of {rest : Repetition} (h : m.phase = .repeating rest) :
    (of m).repeating = some ⟨.act rest.action, rest.left, rest.warned⟩ := by
  rw [eq_setPhase h]
  rfl

theorem repeating_of_ne (h : ∀ rest, m.phase ≠ .repeating rest) : (of m).repeating = none := by
  cases hp : m.phase with
  | repeating rest => exact absurd hp (h rest)
  | idle | ready | waiting | supplied => simp [of, Machine.unfinished?, hp]

theorem bank_of (m : Machine) (s : Scope) : (of m).bank s = .of (m.memory s) := by
  cases s <;> rfl

theorem setBank_of (m : Machine) (s : Scope) (memory : Memory) :
    (of m).setBank s (.of memory) = of (m.setMemory s memory) := by
  cases s <;> rfl

theorem push_of (m : Machine) (n : Notice) : (of m).push (.notice n) = of (m.push n) := by
  simp [of, push, Machine.push, Machine.line?, Machine.isWaiting, Machine.isRunning,
    Machine.unfinished?]

theorem proceed_of (m : Machine) : (of m).proceed = (.ok none, of m.advance) := rfl

theorem load_of (m : Machine) (p : Program) : (of m).load p = of (m.load p) := rfl

theorem runText_of (m : Machine) (source text : String) :
    (of m).runText source text = of (m.runText source text) := by
  unfold runText Machine.runText
  cases Program.compile source text <;> rfl

theorem enter_of (m : Machine) (line : List Char) :
    (of m).enter line = ((m.enter line).1, of (m.enter line).2) := by
  by_cases hw : m.isWaiting = true
  · have hphase : m.phase = .waiting := by simpa [Machine.isWaiting] using hw
    rw [eq_setPhase hphase]
    rfl
  · have hw' : (of m).waiting = false := Bool.eq_false_iff.2 hw
    rw [enter, Machine.enter, hw', if_neg hw]
    rfl

theorem interrupt_of (m : Machine) : (of m).interrupt = of m.interrupt := by
  unfold interrupt Machine.interrupt
  by_cases hr : m.isRunning = true
  · have hr' : (of m).running = true := hr
    rw [if_pos hr, if_pos hr']
    rfl
  · have hr' : ¬ (of m).running = true := hr
    rw [if_neg hr, if_neg hr']

theorem setTracing_of (m : Machine) (on : Bool) :
    (of m).setTracing on = of (m.setTracing on) := rfl

end Registers

/-! ### Bursts -/

namespace Machine
variable (m : Machine) (s : Scope)

theorem setMemory_setMemory (x y : Memory) :
    (m.setMemory s x).setMemory s y = m.setMemory s y := by
  cases s <;> rfl

theorem memory_push (n : Notice) : (m.push n).memory s = m.memory s := by
  cases s <;> rfl

/-- The machine after an action has been done `n` times, and whether the program has been warned
by then. -/
def actTimes (a : Action) (n : ℕ) (warned : Bool) : Machine × Bool :=
  let (memory, after) := (m.memory s).actTimes a n warned
  let m := m.setMemory s memory
  (if after && !warned then m.push (.warning .tooLeft) else m, after)

theorem actTimes_setPhase (p : Phase) (a : Action) (n : ℕ) (warned : Bool) :
    actTimes { m with phase := p } s a n warned =
      ({ (m.actTimes s a n warned).1 with phase := p }, (m.actTimes s a n warned).2) := by
  unfold actTimes
  cases s
  all_goals
    dsimp only [memory, setMemory, push]
    split <;> rfl

theorem repeatBurst_eq_actTimes (r : Repetition) :
    m.repeatBurst s r =
      let (m, warned) := m.actTimes s r.action (min r.left burst) r.warned
      if burst < r.left then { m with phase := .repeating ⟨r.action, r.left - burst, warned⟩ }
      else { m.advance with phase := .ready } := rfl

end Machine

namespace Registers
variable {draws : Draws} {m next : Machine} {wait : Option Medium}

theorem operateTimes_of (s : Scope) (a : Action) (n : ℕ) (m : Machine) (warned : Bool) :
    operateTimes s (.act a) n (of m) warned =
      .ok (of (m.actTimes s a n warned).1, (m.actTimes s a n warned).2) := by
  induction n generalizing m warned with
  | zero => cases s <;> simp [operateTimes, Machine.actTimes, Machine.memory, Machine.setMemory]
  | succ n ih =>
      simp only [operateTimes, bank_of, Bank.operate_of, bind, Except.bind, setBank_of,
        Machine.actTimes, Memory.actTimes_succ, Bool.not_not]
      cases hfall : (m.memory s).fallsLeft a with
      | false =>
          simp only [Bool.false_and, Bool.or_false, Bool.false_eq_true, if_false, ih,
            Machine.actTimes, Machine.memory_setMemory_same, Machine.setMemory_setMemory]
      | true =>
          cases warned with
          | true =>
              simp only [Bool.not_true, Bool.and_false, Bool.or_true, Bool.false_eq_true, if_false,
                ih, Machine.actTimes, Machine.memory_setMemory_same, Machine.setMemory_setMemory]
          | false =>
              have hfell := actTimes_fell ((m.memory s).act a) a n
              simp only [Bool.not_false, Bool.and_self, Bool.or_true, if_true, push_of, ih,
                Machine.actTimes, Machine.memory_push, Machine.memory_setMemory_same, hfell,
                Bool.not_true, Bool.and_false, Bool.false_eq_true, if_false, Bool.and_true]
              cases s <;> rfl

/-- A burst of an action.  It begins by clearing the register of the repetition. -/
theorem act_of (m : Machine) (s : Scope) {r : Repetition}
    (hphase : m.phase = .ready ∨ ∃ rest, m.phase = .repeating rest)
    (hwarned : (of m).repeating.any (·.warned) = r.warned) :
    (of m).act s (.act r.action) r.left = .ok (.ok none, of (m.repeatBurst s r)) := by
  have hready : { of m with repeating := none } = of { m with phase := .ready } := by
    rcases hphase with h | ⟨rest, h⟩
    · rw [eq_setPhase h]
      rfl
    · rw [eq_setPhase h]
      rfl
  simp only [act, hwarned, hready, operateTimes_of, Machine.actTimes_setPhase, bind, Except.bind,
    pure, Except.pure, Machine.repeatBurst_eq_actTimes]
  by_cases hb : Machine.burst < r.left
  · rw [if_pos (by omega), if_pos hb, Nat.min_eq_right hb.le]
    generalize m.actTimes s r.action Machine.burst r.warned = done
    rfl
  · rw [if_neg (by omega), if_neg hb]
    rfl

end Registers

/-! ### Steps -/

namespace Machine
variable {m : Machine} {s : Scope} {times : Repeat} {a : Action}

theorem Coherent.ready (h : m.Coherent) (hr : m.isRunning = true) {i : Instruction}
    (hi : m.program.instruction? m.counter = some i)
    (hinput : ∀ s medium, i ≠ .perform s (.input medium))
    (hact : i.command.acceptsRepeat = false) : m.phase = .ready := by
  refine (h.calm hi hinput hact).resolve_left fun hidle => ?_
  simp [isRunning, hidle] at hr

theorem Coherent.ready_or_repeating (h : m.Coherent) (hr : m.isRunning = true)
    (hi : m.program.instruction? m.counter = some (.act s times a)) :
    m.phase = .ready ∨ ∃ rest, m.phase = .repeating rest := by
  cases hp : m.phase with
  | idle => simp [isRunning, hp] at hr
  | ready => exact .inl rfl
  | waiting =>
      obtain ⟨_, _, hi'⟩ := h.waiting hp
      simp [hi] at hi'
  | supplied line =>
      obtain ⟨_, _, hi'⟩ := h.supplied line hp
      simp [hi] at hi'
  | repeating rest => exact .inr ⟨rest, rfl⟩

/-- A running machine at a request for a line is ready, or has asked, or has the line. -/
theorem Coherent.ready_or_waiting (h : m.Coherent) (hr : m.isRunning = true) {medium : Medium}
    (hi : m.program.instruction? m.counter = some (.perform s (.input medium)))
    (hline : ∀ line, m.phase ≠ .supplied line) : m.phase = .ready ∨ m.phase = .waiting := by
  cases hp : m.phase with
  | idle => simp [isRunning, hp] at hr
  | ready => exact .inl rfl
  | waiting => exact .inr rfl
  | supplied line => exact absurd hp (hline line)
  | repeating rest =>
      obtain ⟨⟨i, hi', hrepeat, _⟩, _⟩ := h.repeating rest hp
      rw [hi] at hi'
      cases hi'
      contradiction

end Machine

namespace Registers
variable {draws : Draws} {m next : Machine} {wait : Option Medium} {s : Scope} {times : Repeat}
  {a : Action} {r : Repetition} {i : Instruction}

theorem signed_act (a : Action) (n : ℤ) :
    signed (.act a) n = (.act (a.signed n).1, (a.signed n).2) := by
  unfold signed Action.signed
  split <;> rfl

theorem pending?_act (m : Machine) (s : Scope) (times : Repeat) (a : Action) :
    (of m).pending? (.act s times a) (m.memory s).cell =
      (m.repetition? s times a).map fun r => (.act r.action, r.left) := by
  have hresolve : resolve? (.act s times a) (m.memory s).cell =
      (times.resolve? a (m.memory s).cell).map fun p => (.act p.1, p.2) := by
    cases times with
    | once => rfl
    | times n => exact congrArg some (signed_act a n.toInt)
    | byCell =>
        simp only [resolve?, Repeat.resolve?, Instruction.times, Instruction.command,
          Option.map_map, signed_act]
        rfl
  unfold Machine.repetition?
  cases hp : m.phase with
  | repeating rest =>
      rw [pending?, repeating_of hp]
      rfl
  | idle | ready | waiting | supplied =>
      rw [pending?, repeating_of_ne (by simp [hp]), Option.map_map]
      exact hresolve

theorem warned_of (hr : m.repetition? s times a = some r) :
    (of m).repeating.any (·.warned) = r.warned := by
  unfold Machine.repetition? at hr
  cases hp : m.phase with
  | repeating rest =>
      rw [hp] at hr
      cases hr
      rw [repeating_of hp]
      rfl
  | idle | ready | waiting | supplied =>
      rw [hp] at hr
      obtain ⟨p, _, rfl⟩ := Option.map_eq_some_iff.1 hr
      rw [repeating_of_ne (by simp [hp])]
      rfl

theorem step_of_pending (hi : m.program.instruction? m.counter = some i) {todo : Command × ℕ}
    (hp : (of m).pending? i (m.memory i.scope).cell = some todo) :
    (of m).step draws = (of m).dispatch draws i.scope (m.memory i.scope).cell todo := by
  have hi' : (of m).program.instruction? (of m).counter = some i := hi
  simp only [step, hi', bank_of, Bank.cell_of, bind, Except.bind, hp]

/-- An instruction that is no action, when no repetition is unfinished. -/
theorem step_of_once (hi : m.program.instruction? m.counter = some i)
    (hi' : ∀ s times a, i ≠ .act s times a) (hp : ∀ rest, m.phase ≠ .repeating rest) :
    (of m).step draws =
      (of m).dispatch draws i.scope (m.memory i.scope).cell (i.command, 1) := by
  refine step_of_pending hi ?_
  rw [pending?, repeating_of_ne hp]
  cases i with
  | act s times a => exact absurd rfl (hi' s times a)
  | perform s o => rfl
  | swap => rfl

theorem step_of_ready (hp : m.phase = .ready) (hi : m.program.instruction? m.counter = some i)
    (hi' : ∀ s times a, i ≠ .act s times a) :
    (of m).step draws =
      (of m).dispatch draws i.scope (m.memory i.scope).cell (i.command, 1) :=
  step_of_once hi hi' (by simp [hp])

theorem opening_of (draws : Draws) (s : Scope) (form : LoopForm) {target : ℕ}
    (ht : m.program.jumps.target? m.counter = some target) :
    (of m).stepOperation draws s (m.memory s).cell (.opening form) =
      .ok (.ok none, of (m.stepOpening s form target)) := by
  have ht' : (of m).program.jumps.target? (of m).counter = some target := ht
  have hskips : ((m.memory s).cell == 0.0 &&
      (form == .testFirst || (of m).entered.contains (of m).counter)) = m.skips s form := by
    cases form with
    | testFirst => exact Bool.and_true _
    | testLast => rfl
  simp only [stepOperation, ht', hskips, Machine.stepOpening_eq_ite]
  cases m.skips s form with
  | true => rfl
  | false => rfl

theorem closing_of (draws : Draws) (s : Scope) (form : LoopForm) {target : ℕ}
    (ht : m.program.jumps.target? m.counter = some target) :
    (of m).stepOperation draws s (m.memory s).cell (.closing form) =
      .ok (.ok none, of (m.stepClosing s target)) := by
  have ht' : (of m).program.jumps.target? (of m).counter = some target := ht
  have hzero : ((m.memory s).cell == 0.0) = m.isZero s := rfl
  simp only [stepOperation, ht', hzero, Machine.stepClosing]
  cases m.isZero s with
  | true => rfl
  | false => rfl

theorem swapCells_of (m : Machine) : (of m).swapCells = .ok (of m.swapCells) := by
  have hglobal : (of m).global = .of m.global := rfl
  have hlocal : (of m).local = .of m.local := rfl
  have hset (x y : Memory) : { of m with global := .of x, «local» := .of y } =
      ((of m).setBank .global (.of x)).setBank .local (.of y) := rfl
  simp only [swapCells, hglobal, hlocal, Bank.cell_of, Bank.setCell_of, bind, Except.bind, pure,
    Except.pure, hset, setBank_of]
  rfl

/-- **A step in registers**, if the step of the machine succeeds. -/
theorem step_of (h : m.Coherent) (hr : m.isRunning = true)
    (hs : Machine.Steps draws m next wait) :
    (of m).step draws = .ok (.ok (wait.map .input), of next) := by
  cases hs with
  | @burst s times a r hi hrep =>
      rw [step_of_pending hi ((pending?_act m s times a).trans (by rw [hrep]; rfl))]
      exact act_of m s (h.ready_or_repeating hr hi) (warned_of hrep)
  | @random s hi =>
      have hp := h.ready hr hi (by simp) rfl
      rw [step_of_ready hp hi (by simp)]
      simp only [dispatch, Instruction.command, Instruction.scope, stepOperation, bank_of,
        Bank.setCell_of, bind, Except.bind, pure, Except.pure, setBank_of]
      rfl
  | @switchTape s hi =>
      have hp := h.ready hr hi (by simp) rfl
      rw [step_of_ready hp hi (by simp)]
      simp only [dispatch, Instruction.command, Instruction.scope, stepOperation, bank_of,
        Bank.switch_of, bind, Except.bind, pure, Except.pure, setBank_of, proceed_of]
      rfl
  | @output s medium out hi hw =>
      have hp := h.ready hr hi (by simp) rfl
      rw [step_of_ready hp hi (by simp)]
      simp only [dispatch, Instruction.command, Instruction.scope, stepOperation, hw, push_of,
        proceed_of]
      rfl
  | @input s medium line x hi hp hx =>
      have hready : { of m with input := none } = of { m with phase := .ready } := by
        rw [eq_setPhase hp]
        rfl
      rw [step_of_once hi (by simp) (by simp [hp])]
      simp only [dispatch, Instruction.command, Instruction.scope, stepOperation, input_of hp,
        hready, hx, bank_of, Bank.setCell_of, bind, Except.bind, pure, Except.pure, setBank_of,
        proceed_of]
      cases s <;> rfl
  | @ask s medium hi hp =>
      rcases h.ready_or_waiting hr hi hp with hp | hp
      · rw [step_of_ready hp hi (by simp), eq_setPhase hp]
        rfl
      · rw [step_of_once hi (by simp) (by simp [hp]), eq_setPhase hp]
        rfl
  | @opening s form target hi ht =>
      have hp := h.ready hr hi (by simp) rfl
      rw [step_of_ready hp hi (by simp)]
      exact opening_of draws s form ht
  | @closing s form target hi ht =>
      have hp := h.ready hr hi (by simp) rfl
      rw [step_of_ready hp hi (by simp)]
      exact closing_of draws s form ht
  | @reserved s what hi =>
      have hp := h.ready hr hi (by simp) rfl
      rw [step_of_ready hp hi (by simp)]
      rfl
  | swap hi =>
      have hp := h.ready hr hi (by simp) rfl
      rw [step_of_ready hp hi (by simp)]
      simp only [dispatch, Instruction.command, swapCells_of, bind, Except.bind, pure,
        Except.pure, proceed_of]
      rfl

/-- The registers in which a step of the machine fails: those of the machine, but that the line may
have been taken. -/
theorem exists_fail_of (h : m.Coherent) (hr : m.isRunning = true) {cause : Fault}
    (hi : m.program.instruction? m.counter = some i) (hs : m.Refuses i cause) :
    ∃ r, (r = of m ∨ r = { of m with input := none }) ∧
      (of m).step draws = .ok (r.fail cause) := by
  cases hs with
  | @act s times a hrep =>
      have hp : (of m).pending? (.act s times a) (m.memory s).cell = none := by
        rw [pending?_act, hrep]
        rfl
      have hi' : (of m).program.instruction? (of m).counter = some (.act s times a) := hi
      refine ⟨of m, .inl rfl, ?_⟩
      simp only [step, hi', bank_of, Instruction.scope, Bank.cell_of, bind, Except.bind, hp]
      rfl
  | output hw =>
      have hp := h.ready hr hi (by simp) rfl
      refine ⟨of m, .inl rfl, ?_⟩
      rw [step_of_ready hp hi (by simp)]
      simp only [dispatch, Instruction.command, Instruction.scope, stepOperation, hw]
  | @input s medium line _ hp hx =>
      refine ⟨{ of m with input := none }, .inr rfl, ?_⟩
      rw [step_of_once hi (by simp) (by simp [hp])]
      simp only [dispatch, Instruction.command, stepOperation, input_of hp, hx]
  | opening ht | closing ht =>
      have hp := h.ready hr hi (by simp) rfl
      have ht' : (of m).program.jumps.target? (of m).counter = none := ht
      refine ⟨of m, .inl rfl, ?_⟩
      rw [step_of_ready hp hi (by simp)]
      simp only [dispatch, Instruction.command, stepOperation, ht']

/-- **A step in registers**, if the step of the machine fails: the same fault, and once the run has
been ended the same registers. -/
theorem step_of_error (h : m.Coherent) (hr : m.isRunning = true)
    (hc : m.counter < m.program.size) {fault : Fault} (hs : m.step draws = .error fault) :
    ∃ r, (of m).step draws = .ok (.error fault, r) ∧ r.program = m.program ∧
      { r.stop with events := [] } = of { m.stop with queue := [] } := by
  obtain ⟨i, cause, hi, hcause, rfl⟩ := Machine.stepInstruction_of_error hc hs
  obtain ⟨r, hr', hstep⟩ := exists_fail_of h hr hi (Machine.refuses_of_error hcause)
  refine ⟨r, ?_, ?_, ?_⟩
  · rw [hstep]
    rcases hr' with rfl | rfl <;> rfl
  · rcases hr' with rfl | rfl <;> rfl
  · rcases hr' with rfl | rfl <;> rfl

/-! ### Runs -/

theorem traced_of (m : Machine) (address : ℕ) : (of m).traced address = of (m.traced address) := by
  have htracing : (of m).tracing = m.tracing := rfl
  unfold traced Machine.traced
  rw [htracing]
  cases hp : m.phase with
  | repeating rest =>
      rw [repeating_of hp, Option.isNone_some, Bool.and_false]
      rfl
  | idle | ready | waiting | supplied =>
      rw [repeating_of_ne (by simp [hp]), Option.isNone_none, Bool.and_true]
      split
      · exact push_of m _
      · rfl

/-- `run`, with a record of the registers at which a step was taken. -/
def runLogged (draws : Draws) :
    ℕ → Registers → List Registers × Except Breakage (Event × Registers)
  | 0, r => ([], .ok (.running, r))
  | budget + 1, r =>
    if r.program.size ≤ r.counter then ([], .ok (.stopped, r.stop))
    else match r.step draws with
      | .error breakage => ([r], .error breakage)
      | .ok (.ok (some event), next) => ([r], .ok (event, next))
      | .ok (.error fault, next) =>
        ([r], .ok (.notice (.fault (fault.inSource next.program.source)),
          { next.stop with events := [] }))
      | .ok (.ok none, next) =>
        match (next.traced r.counter).events with
        | event :: events => ([r], .ok (event, { next with events := events }))
        | [] => (r :: (runLogged draws budget next).1, (runLogged draws budget next).2)

/-- `execute`, with a record of the registers at which a step was taken. -/
def executeLogged (draws : Draws) (budget : ℕ) (r : Registers) :
    List Registers × Except Breakage (Event × Registers) :=
  if r.events = [] ∧ r.interrupted = false ∧ r.running = true then r.runLogged draws budget
  else ([], r.execute draws budget)

theorem runLogged_val (draws : Draws) (budget : ℕ) (r : Registers) :
    (r.runLogged draws budget).2 = r.run draws budget := by
  induction budget generalizing r with
  | zero => rfl
  | succ budget ih =>
      rw [runLogged, run]
      by_cases hc : r.program.size ≤ r.counter
      · rw [if_pos hc, if_pos hc]
      · rw [if_neg hc, if_neg hc]
        cases r.step draws with
        | error breakage => rfl
        | ok outcome =>
            obtain ⟨fault | _ | event, next⟩ := outcome
            · rfl
            · dsimp only
              cases (next.traced r.counter).events with
              | nil => exact ih next
              | cons event events => rfl
            · rfl

theorem executeLogged_val (draws : Draws) (budget : ℕ) (r : Registers) :
    (r.executeLogged draws budget).2 = r.execute draws budget := by
  unfold executeLogged
  split
  · rename_i h
    obtain ⟨hevents, hinterrupted, hrunning⟩ := h
    rw [runLogged_val]
    simp [execute, hevents, hinterrupted, hrunning]
  · rfl

/-- A run in registers takes its steps at the registers of the machines, and ends as the run of the
machine. -/
theorem runLogged_of (h : m.Coherent) (hq : m.queue = []) (hr : m.isRunning = true)
    (budget : ℕ) :
    (of m).runLogged draws budget = ((m.runLogged draws budget).1.map of,
      .ok ((m.runLogged draws budget).2.1, of (m.runLogged draws budget).2.2)) := by
  induction budget generalizing m with
  | zero => rfl
  | succ budget ih =>
      have hsize : (of m).program.size ≤ (of m).counter ↔ m.program.size ≤ m.counter := Iff.rfl
      rw [runLogged, Machine.runLogged]
      by_cases hc : m.program.size ≤ m.counter
      · rw [if_pos hc, if_pos (hsize.2 hc)]
        rfl
      · rw [if_neg hc, if_neg (mt hsize.1 hc)]
        cases hs : m.step draws with
        | error fault =>
            obtain ⟨r, hstep, hprogram, hstop⟩ := step_of_error h hr (by omega) hs
            simp only [hstep, hprogram, hstop]
            rfl
        | ok p =>
            obtain ⟨next, wait⟩ := p
            have hsteps := Machine.step_eq_ok_iff.1 hs
            have hstep := step_of h hr hsteps
            cases wait with
            | some medium =>
                simp only [hstep]
                rfl
            | none =>
                have hevents : ((of next).traced (of m).counter).events =
                    (next.traced m.counter).queue.map .notice :=
                  congrArg Registers.events (traced_of next m.counter)
                simp only [hstep, Option.map_none, hevents]
                cases hall : (next.traced m.counter).queue with
                | cons n queue => rfl
                | nil =>
                    have hempty : next.queue = [] := by
                      rcases hsteps.traced_queue hq m.counter with ⟨_, hempty⟩ | ⟨_, _, hcons, _⟩
                      · exact hempty
                      · rw [hall] at hcons
                        contradiction
                    simp only [List.map_nil,
                      ih (hsteps.coherent h) hempty (hsteps.isRunning hr), List.map_cons]

/-! ### Calls -/

theorem executeLogged_of (h : m.Coherent) (draws : Draws) (budget : ℕ) :
    (of m).executeLogged draws budget = ((m.executeLogged draws budget).1.map of,
      .ok ((m.executeLogged draws budget).2.1, of (m.executeLogged draws budget).2.2)) := by
  unfold executeLogged Machine.executeLogged
  by_cases ha : m.Active
  · have hempty : (of m).events = [] := congrArg (List.map Event.notice) ha.queue
    rw [if_pos ⟨hempty, ha.interrupted, ha.running⟩, runLogged_of h ha.queue ha.running]
    simp [ha.queue, ha.interrupted, ha.running]
  · rcases Machine.cases_of_not_active ha with ⟨n, queue, hq⟩ | ⟨hq, hi⟩ | ⟨hq, hi, hr⟩
    · have hevents : (of m).events = .notice n :: queue.map .notice :=
        congrArg (List.map Event.notice) hq
      rw [if_neg (by simp [hevents]), execute, hevents, hq]
      rfl
    · cases m
      cases hq
      cases hi
      rfl
    · have hevents : (of m).events = [] := congrArg (List.map Event.notice) hq
      have hinterrupted : (of m).interrupted = false := hi
      have hrunning : (of m).running = false := hr
      rw [if_neg (by simp [hrunning]), execute, hevents, hq]
      simp only [hinterrupted, hi, hrunning, hr, Bool.false_eq_true, if_false]
      rfl

theorem execute_of (h : m.Coherent) (draws : Draws) (budget : ℕ) :
    (of m).execute draws budget =
      .ok ((m.execute draws budget).1, of (m.execute draws budget).2) := by
  rw [← executeLogged_val, executeLogged_of h, Machine.executeLogged_val]

/-- The answer to a call, and the registers after it. -/
def perform (r : Registers) : Call → Except Breakage (Answer × Registers)
  | .runText source text => .ok (.nothing, r.runText source text)
  | .load program => .ok (.nothing, r.load program)
  | .execute draws budget => do
    let (event, r) ← r.execute draws budget
    return (.event event, r)
  | .enter line => .ok (.taken (r.enter line).1, (r.enter line).2)
  | .interrupt => .ok (.nothing, r.interrupt)
  | .setTracing on => .ok (.nothing, r.setTracing on)

/-- The answers to calls that are made one after the other, and the registers after them. -/
def performAll (r : Registers) : List Call → Except Breakage (List Answer × Registers)
  | [] => .ok ([], r)
  | c :: calls => do
    let (answer, r) ← r.perform c
    let (answers, r) ← r.performAll calls
    return (answer :: answers, r)

theorem perform_of (h : m.Coherent) (c : Call) :
    (of m).perform c = .ok ((m.perform c).1, of (m.perform c).2) := by
  cases c with
  | runText source text => rw [perform, runText_of, Machine.perform]
  | load program => rw [perform, load_of, Machine.perform]
  | execute draws budget =>
      rw [perform, execute_of h, Machine.perform]
      rfl
  | enter line => rw [perform, enter_of, Machine.perform]
  | interrupt => rw [perform, interrupt_of, Machine.perform]
  | setTracing on => rw [perform, setTracing_of, Machine.perform]

/-- **Calls in registers** are answered as the machine answers them, and do not break. -/
theorem performAll_of (h : m.Reachable) (calls : List Call) :
    (of m).performAll calls = .ok ((m.performAll calls).1, of (m.performAll calls).2) := by
  induction calls generalizing m with
  | nil => rfl
  | cons c calls ih =>
      rw [performAll, perform_of h.coherent_quiet.1 c]
      simp only [bind, Except.bind, ih (h.perform c)]
      rfl

end Registers
end TwinTape
