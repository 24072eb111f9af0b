import TwinTape.Machine.Step
import Mathlib.Tactic.Common

/-! # What a step can do

`Machine.Steps draws m next wait` lists the ways in which a step can succeed, one per sort of
instruction, and a step succeeds in just these ways (`step_eq_ok_iff`).  Facts about steps are
read off this list, so that the step itself is opened only here: a step changes neither the
program nor what the host has asked for (`Steps.frame`), a running machine runs on
(`Steps.isRunning`), and a step tells one thing at most (`Steps.queue`). -/

namespace TwinTape

theorem Program.lt_size_of_instruction? {p : Program} {a : ℕ} {i : Instruction}
    (hi : p.instruction? a = some i) : a < p.size := by
  obtain ⟨c, hc, _⟩ := Option.map_eq_some_iff.1 hi
  exact (List.getElem?_eq_some_iff.1 hc).1

theorem Program.exists_instruction? {p : Program} {a : ℕ} (ha : a < p.size) :
    ∃ i, p.instruction? a = some i := by
  have hsome : p.code[a]? = some (p.code.get ⟨a, ha⟩) := List.getElem?_eq_getElem ha
  exact ⟨_, by rw [Program.instruction?, hsome]; rfl⟩

namespace Machine

/-! ### Fields -/

section fields
variable (m : Machine) (s : Scope) (memory : Memory) (n : Notice) (r : Repetition) (a : ℕ)

@[simp] theorem program_setMemory : (m.setMemory s memory).program = m.program := by
  cases s <;> rfl

@[simp] theorem counter_setMemory : (m.setMemory s memory).counter = m.counter := by
  cases s <;> rfl

@[simp] theorem entered_setMemory : (m.setMemory s memory).entered = m.entered := by
  cases s <;> rfl

@[simp] theorem phase_setMemory : (m.setMemory s memory).phase = m.phase := by
  cases s <;> rfl

@[simp] theorem interrupted_setMemory : (m.setMemory s memory).interrupted = m.interrupted := by
  cases s <;> rfl

@[simp] theorem tracing_setMemory : (m.setMemory s memory).tracing = m.tracing := by
  cases s <;> rfl

@[simp] theorem queue_setMemory : (m.setMemory s memory).queue = m.queue := by
  cases s <;> rfl

@[simp] theorem drawn_setMemory : (m.setMemory s memory).drawn = m.drawn := by
  cases s <;> rfl

end fields

/-! ### Ways to succeed -/

/-- The ways in which a step of `m` can lead to `next`; `wait` is what is waited for. -/
inductive Steps (draws : Draws) (m : Machine) : Machine → Option Medium → Prop
  /-- A burst of an action. -/
  | burst {s : Scope} {times : Repeat} {a : Action} {r : Repetition} :
      m.program.instruction? m.counter = some (.act s times a) →
      m.repetition? s times a = some r → Steps draws m (m.repeatBurst s r) none
  | random {s : Scope} :
      m.program.instruction? m.counter = some (.perform s .random) →
      Steps draws m
        { m.setMemory s ((m.memory s).set (draws m.drawn)) with drawn := m.drawn + 1 }.advance none
  | switchTape {s : Scope} :
      m.program.instruction? m.counter = some (.perform s .switchTape) →
      Steps draws m (m.setMemory s (m.memory s).switch).advance none
  | output {s : Scope} {medium : Medium} {out : Output} :
      m.program.instruction? m.counter = some (.perform s (.output medium)) →
      medium.write (m.memory s).cell = .ok out →
      Steps draws m (m.push (.print out)).advance none
  /-- A line is there and is read. -/
  | input {s : Scope} {medium : Medium} {line : List Char} {x : Float} :
      m.program.instruction? m.counter = some (.perform s (.input medium)) →
      m.phase = .supplied line → medium.read line = .ok x →
      Steps draws m { m.setMemory s ((m.memory s).set x) with phase := .ready }.advance none
  /-- No line is there. -/
  | ask {s : Scope} {medium : Medium} :
      m.program.instruction? m.counter = some (.perform s (.input medium)) →
      (∀ line, m.phase ≠ .supplied line) →
      Steps draws m { m with phase := .waiting } (some medium)
  | opening {s : Scope} {form : LoopForm} {target : ℕ} :
      m.program.instruction? m.counter = some (.perform s (.opening form)) →
      m.program.jumps.target? m.counter = some target →
      Steps draws m (m.stepOpening s form target) none
  | closing {s : Scope} {form : LoopForm} {target : ℕ} :
      m.program.instruction? m.counter = some (.perform s (.closing form)) →
      m.program.jumps.target? m.counter = some target →
      Steps draws m (m.stepClosing s target) none
  | reserved {s : Scope} {what : Reserved} :
      m.program.instruction? m.counter = some (.perform s (.reserved what)) →
      Steps draws m m.advance none
  | swap :
      m.program.instruction? m.counter = some .swap → Steps draws m m.swapCells.advance none

variable {draws : Draws} {m next : Machine} {wait : Option Medium}

theorem step_of_instruction {i : Instruction} (hi : m.program.instruction? m.counter = some i) :
    m.step draws =
      (stepInstruction draws m i).mapError (·.located (m.program.position m.counter)) := by
  simp [step, hi]

theorem step_eq_ok_of_instruction {i : Instruction}
    (hi : m.program.instruction? m.counter = some i) :
    m.step draws = .ok (next, wait) ↔ stepInstruction draws m i = .ok (next, wait) := by
  rw [step_of_instruction hi]
  cases stepInstruction draws m i <;> simp [Except.mapError]

theorem Steps.step_eq (h : Steps draws m next wait) : m.step draws = .ok (next, wait) := by
  cases h with
  | burst hi hr =>
      rw [step_eq_ok_of_instruction hi]
      simp [stepInstruction, hr]
  | random hi | switchTape hi | reserved hi | swap hi =>
      exact (step_eq_ok_of_instruction hi).2 rfl
  | output hi hw =>
      rw [step_eq_ok_of_instruction hi]
      simp [stepInstruction, stepOperation, hw, bind, Except.bind, pure, Except.pure]
  | input hi hp hx =>
      rw [step_eq_ok_of_instruction hi]
      simp [stepInstruction, stepOperation, hp, hx, bind, Except.bind, pure, Except.pure]
  | ask hi hp =>
      rw [step_eq_ok_of_instruction hi]
      simp [stepInstruction, stepOperation]
  | opening hi ht | closing hi ht =>
      rw [step_eq_ok_of_instruction hi]
      simp [stepInstruction, stepOperation, stepBracket, ht, bind, Except.bind, pure, Except.pure]

theorem steps_of_stepOperation {s : Scope} {o : Operation}
    (hi : m.program.instruction? m.counter = some (.perform s o))
    (h : stepOperation draws m s o = .ok (next, wait)) : Steps draws m next wait := by
  cases o with
  | random =>
      cases h
      exact .random hi
  | switchTape =>
      cases h
      exact .switchTape hi
  | input medium =>
      simp only [stepOperation] at h
      split at h
      · rename_i line hp
        cases hx : medium.read line with
        | error f => simp [hx, bind, Except.bind] at h
        | ok x =>
            simp only [hx, bind, Except.bind, pure, Except.pure] at h
            cases h
            exact .input hi hp hx
      · cases h
        exact .ask hi ‹_›
  | output medium =>
      simp only [stepOperation] at h
      cases hw : medium.write (m.memory s).cell with
      | error f => simp [hw, bind, Except.bind] at h
      | ok out =>
          simp only [hw, bind, Except.bind, pure, Except.pure] at h
          cases h
          exact .output hi hw
  | opening form =>
      simp only [stepOperation, stepBracket] at h
      cases ht : m.program.jumps.target? m.counter with
      | none => simp [ht, bind, Except.bind] at h
      | some target =>
          simp only [ht, bind, Except.bind, pure, Except.pure] at h
          cases h
          exact .opening hi ht
  | closing form =>
      simp only [stepOperation, stepBracket] at h
      cases ht : m.program.jumps.target? m.counter with
      | none => simp [ht, bind, Except.bind] at h
      | some target =>
          simp only [ht, bind, Except.bind, pure, Except.pure] at h
          cases h
          exact .closing hi ht
  | reserved what =>
      cases h
      exact .reserved hi

/-- A step succeeds in one of the listed ways. -/
theorem step_eq_ok_iff : m.step draws = .ok (next, wait) ↔ Steps draws m next wait := by
  refine ⟨fun h => ?_, Steps.step_eq⟩
  cases hi : m.program.instruction? m.counter with
  | none => simp [step, hi] at h
  | some i =>
      rw [step_eq_ok_of_instruction hi] at h
      cases i with
      | act s times a =>
          simp only [stepInstruction] at h
          cases hr : m.repetition? s times a with
          | none => simp [hr] at h
          | some r =>
              simp only [hr] at h
              cases h
              exact .burst hi hr
      | perform s o => exact steps_of_stepOperation hi h
      | swap =>
          cases h
          exact .swap hi

/-! ### Bursts and brackets as records -/

section records
variable (m : Machine) (s : Scope) (r : Repetition) (form : LoopForm) (target : ℕ)

/-- The memory after a burst, and whether the program has been warned by then. -/
def burstResult : Memory × Bool := (m.memory s).actTimes r.action (min r.left burst) r.warned

theorem repeatBurst_eq :
    m.repeatBurst s r =
      { m.setMemory s (m.burstResult s r).1 with
        queue := if (m.burstResult s r).2 && !r.warned then m.queue ++ [.warning .tooLeft]
          else m.queue
        phase := if burst < r.left then
            .repeating ⟨r.action, r.left - burst, (m.burstResult s r).2⟩ else .ready
        counter := if burst < r.left then m.counter else m.counter + 1 } := by
  unfold repeatBurst burstResult
  generalize (m.memory s).actTimes r.action (min r.left burst) r.warned = done
  obtain ⟨memory, warned⟩ := done
  cases s <;> by_cases hw : (warned && !r.warned) = true <;> by_cases hb : burst < r.left <;>
    simp [hw, hb, setMemory, push, advance, goto]

/-- The opening bracket at the counter skips its loop. -/
def skips : Bool :=
  match form with
  | .testFirst => m.isZero s
  | .testLast => m.isZero s && m.entered.contains m.counter

theorem stepOpening_eq_ite :
    m.stepOpening s form target = if m.skips s form then m.unmarkEntered.goto (target + 1)
      else m.markEntered.advance := by
  cases form <;> rfl

theorem stepOpening_eq :
    m.stepOpening s form target =
      { m with
        entered := if m.skips s form then m.entered.erase m.counter else m.entered.insert m.counter
        counter := if m.skips s form then target + 1 else m.counter + 1 } := by
  rw [stepOpening_eq_ite]
  by_cases hz : m.skips s form <;> simp [hz, unmarkEntered, markEntered, goto, advance]

theorem stepClosing_eq :
    m.stepClosing s target =
      { m with
        entered := if m.isZero s then m.entered.erase m.counter else m.entered
        counter := if m.isZero s then m.counter + 1 else target + 1 } := by
  unfold stepClosing
  by_cases hz : m.isZero s <;> simp [hz, unmarkEntered, goto, advance]

theorem swapCells_eq :
    m.swapCells = (m.setMemory .global ((m.memory .global).set (m.memory .local).cell)).setMemory
      .local ((m.memory .local).set (m.memory .global).cell) := rfl

end records

/-! ### What a step leaves alone -/

theorem Steps.frame (h : Steps draws m next wait) : next.program = m.program ∧
    next.interrupted = m.interrupted ∧ next.tracing = m.tracing := by
  cases h with
  | burst => simp [repeatBurst_eq]
  | opening => simp [stepOpening_eq]
  | closing => simp [stepClosing_eq]
  | _ => simp [advance, goto, push, swapCells]

theorem Steps.isRunning (h : Steps draws m next wait) (hm : m.isRunning) : next.isRunning := by
  cases h with
  | @burst s times a r =>
      simp only [repeatBurst_eq, Machine.isRunning]
      split <;> rfl
  | opening => simpa [stepOpening_eq, Machine.isRunning] using hm
  | closing => simpa [stepClosing_eq, Machine.isRunning] using hm
  | input | ask => rfl
  | _ => simpa [advance, goto, push, swapCells, Machine.isRunning] using hm

/-- A step tells one thing at most, and it is no fault. -/
theorem Steps.queue (h : Steps draws m next wait) : next.queue = m.queue ∨
    (∃ out, next.queue = m.queue ++ [.print out]) ∨
      next.queue = m.queue ++ [.warning .tooLeft] := by
  cases h with
  | @burst s times a r =>
      simp only [repeatBurst_eq]
      split
      · exact .inr (.inr rfl)
      · exact .inl rfl
  | @output s medium out => exact .inr (.inl ⟨out, rfl⟩)
  | opening => simp [stepOpening_eq]
  | closing => simp [stepClosing_eq]
  | _ => simp [advance, goto, swapCells]

/-! ### Ways to fail -/

theorem kind_of_write {medium : Medium} {x : Float} {f : Fault}
    (h : medium.write x = .error f) : f.kind = .invalidCharacter := by
  cases medium with
  | number => simp [Medium.write] at h
  | character =>
      simp only [Medium.write] at h
      split at h
      · contradiction
      · cases h
        rfl

theorem kind_of_read {medium : Medium} {line : List Char} {f : Fault}
    (h : medium.read line = .error f) : f.kind = .invalidNumber ∨ f.kind = .invalidInput := by
  unfold Medium.read at h
  split at h
  · split at h
    · contradiction
    · cases h
      exact .inl rfl
  · contradiction
  · cases h
    exact .inr rfl

/-- The faults of values that an instruction can not use. -/
def valueFaults : List Fault.Kind := [.invalidNumber, .invalidCharacter, .invalidInput]

/-- The ways in which an instruction can fail. -/
inductive Refuses (m : Machine) : Instruction → Fault → Prop
  | act {s : Scope} {times : Repeat} {a : Action} :
      m.repetition? s times a = none → Refuses m (.act s times a) .countNotFinite
  | output {s : Scope} {medium : Medium} {f : Fault} :
      medium.write (m.memory s).cell = .error f → Refuses m (.perform s (.output medium)) f
  | input {s : Scope} {medium : Medium} {line : List Char} {f : Fault} :
      m.phase = .supplied line → medium.read line = .error f →
      Refuses m (.perform s (.input medium)) f
  | opening {s : Scope} {form : LoopForm} :
      m.program.jumps.target? m.counter = none →
      Refuses m (.perform s (.opening form)) { kind := .unmatchedBracket }
  | closing {s : Scope} {form : LoopForm} :
      m.program.jumps.target? m.counter = none →
      Refuses m (.perform s (.closing form)) { kind := .unmatchedBracket }

theorem refuses_of_error {i : Instruction} {f : Fault} (h : stepInstruction draws m i = .error f) :
    m.Refuses i f := by
  cases i with
  | act s times a =>
      simp only [stepInstruction] at h
      cases hr : m.repetition? s times a with
      | none =>
          simp only [hr] at h
          cases h
          exact .act hr
      | some r => simp [hr] at h
  | swap => simp [stepInstruction] at h
  | perform s o =>
      simp only [stepInstruction] at h
      cases o with
      | random | switchTape | reserved => simp [stepOperation] at h
      | output medium =>
          simp only [stepOperation] at h
          cases hw : medium.write (m.memory s).cell with
          | ok out => simp [hw, bind, Except.bind, pure, Except.pure] at h
          | error f' =>
              simp only [hw, bind, Except.bind] at h
              cases h
              exact .output hw
      | input medium =>
          simp only [stepOperation] at h
          split at h
          · rename_i line hp
            cases hx : medium.read line with
            | ok x => simp [hx, bind, Except.bind, pure, Except.pure] at h
            | error f' =>
                simp only [hx, bind, Except.bind] at h
                cases h
                exact .input hp hx
          · simp at h
      | opening form | closing form =>
          simp only [stepOperation, stepBracket] at h
          cases ht : m.program.jumps.target? m.counter with
          | some target => simp [ht, bind, Except.bind, pure, Except.pure] at h
          | none =>
              simp only [ht, bind, Except.bind] at h
              cases h
              constructor
              exact ht

theorem Refuses.kind {i : Instruction} {f : Fault} (h : m.Refuses i f) :
    f.kind ∈ valueFaults ∨ f.kind = .unmatchedBracket ∧ (∃ b, i.bracket? = some b) ∧
      m.program.jumps.target? m.counter = none := by
  cases h with
  | act => exact .inl (by decide)
  | output hw => exact .inl (by simp [valueFaults, kind_of_write hw])
  | input _ hx =>
      refine .inl ?_
      rcases kind_of_read hx with hk | hk <;> simp [valueFaults, hk]
  | opening ht | closing ht => exact .inr ⟨rfl, ⟨_, rfl⟩, ht⟩

theorem stepInstruction_of_error {f : Fault} (hc : m.counter < m.program.size)
    (h : m.step draws = .error f) : ∃ i cause, m.program.instruction? m.counter = some i ∧
      stepInstruction draws m i = .error cause ∧
      f = cause.located (m.program.position m.counter) := by
  obtain ⟨i, hi⟩ := Program.exists_instruction? hc
  rw [step_of_instruction hi] at h
  cases hs : stepInstruction draws m i with
  | ok p => simp [hs, Except.mapError] at h
  | error cause =>
      rw [hs] at h
      cases h
      exact ⟨i, cause, hi, hs, rfl⟩

/-- Inside the program, a step never fails because the counter has left the program. -/
theorem kind_of_step {f : Fault} (hc : m.counter < m.program.size)
    (h : m.step draws = .error f) : f.kind ≠ .internal := by
  obtain ⟨i, cause, _, hs, rfl⟩ := stepInstruction_of_error hc h
  intro hkind
  have hcause : cause.kind = .internal := hkind
  rcases (refuses_of_error hs).kind with hvalue | ⟨hunmatched, _⟩
  · rw [hcause] at hvalue
    exact absurd hvalue (by decide)
  · rw [hcause] at hunmatched
    contradiction

end Machine
end TwinTape
