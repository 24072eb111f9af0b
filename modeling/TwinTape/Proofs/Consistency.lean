import TwinTape.Proofs.Registers

/-! # Registers that do not contradict each other

No register says what another one may hold: a call sets the registers it has to set, and some
leave work to the next call.  Yet whatever calls a host makes, the registers it gets are
`Consistent`, and at most one event is left for the next call (`Quiet`).  An index is in range, at
most one of the registers of a line, a request and a repetition is in use, and only while a program
runs, at an instruction that this fits.

A call takes each of its steps at consistent registers with nothing to tell (`Poised`); such a step
does not break, and its fault is never that the counter is out of range
(`performAll_consistent`). -/

namespace TwinTape

namespace Registers

variable {draws : Draws} {m : Machine}

/-- The instruction at the counter reads a line. -/
def AtInput (r : Registers) : Prop :=
  ∃ s medium, r.program.instruction? r.counter = some (.perform s (.input medium))

/-- The instruction at the counter can be repeated, and `command` is its command or the opposite. -/
def AtRepeat (r : Registers) (command : Command) : Prop :=
  ∃ i, r.program.instruction? r.counter = some i ∧ i.command.acceptsRepeat ∧
    (i.command = command ∨ i.command.opposite? = some command)

/-- The registers do not contradict each other. -/
structure Consistent (r : Registers) : Prop where
  counter : r.counter ≤ r.program.size
  active : ∀ s, (r.bank s).active = 0 ∨ (r.bank s).active = 1
  first : ∀ s, (r.bank s).first.cursor < (r.bank s).first.cells.length
  second : ∀ s, (r.bank s).second.cursor < (r.bank s).second.cells.length
  waiting : r.waiting = true →
    r.running = true ∧ r.input = none ∧ r.repeating = none ∧ r.AtInput
  input : ∀ line, r.input = some line →
    r.running = true ∧ r.waiting = false ∧ r.repeating = none ∧ r.AtInput
  repeating : ∀ rest, r.repeating = some rest →
    r.running = true ∧ r.waiting = false ∧ r.input = none ∧ r.AtRepeat rest.command ∧
      1 ≤ rest.left

/-- What is left for the next call: at most a report of an executed instruction, or the fault of a
text that did not compile, and then nothing runs. -/
def Quiet (r : Registers) : Prop :=
  r.events = [] ∨ (∃ a, r.events = [.notice (.trace a)]) ∨
    ∃ source text fault, Program.compile source text = .error fault ∧
      r.events = [.notice (.fault fault)] ∧ r.running = false

/-- The registers are ready for a step, and the step does not break. -/
structure Poised (draws : Draws) (r : Registers) : Prop where
  consistent : r.Consistent
  events : r.events = []
  counter : r.counter < r.program.size
  running : r.running = true
  steps : ∃ result next, r.step draws = .ok (result, next) ∧
    ∀ fault, result = .error fault → fault.kind ≠ .internal

theorem consistent_of (h : m.Coherent) : (of m).Consistent where
  counter := h.counter
  active s := by
    rw [bank_of]
    cases hside : (m.memory s).active with
    | first => exact .inl (congrArg Side.index hside)
    | second => exact .inr (congrArg Side.index hside)
  first s := by
    rw [bank_of]
    exact Row.cursor_lt _
  second s := by
    rw [bank_of]
    exact Row.cursor_lt _
  waiting hw := by
    have hp : m.phase = .waiting := by simpa [of, Machine.isWaiting] using hw
    have hat : (of m).AtInput := h.waiting hp
    rw [eq_setPhase hp] at hat ⊢
    exact ⟨rfl, rfl, rfl, hat⟩
  input line hl := by
    have hp : m.phase = .supplied line := by
      cases hp : m.phase <;> simp_all [of, Machine.line?]
    have hat : (of m).AtInput := h.supplied line hp
    rw [eq_setPhase hp] at hat ⊢
    exact ⟨rfl, rfl, rfl, hat⟩
  repeating rest hr := by
    obtain ⟨r, hr, rfl⟩ := Option.map_eq_some_iff.1 hr
    have hp : m.phase = .repeating r := by
      cases hp : m.phase <;> simp_all [Machine.unfinished?]
    obtain ⟨hat, hleft⟩ := h.repeating r hp
    have hat' : (of m).AtRepeat (.act r.action) := hat
    rw [eq_setPhase hp] at hat' ⊢
    exact ⟨rfl, rfl, rfl, hat', hleft⟩

theorem quiet_of (h : m.Quiet) : (of m).Quiet := by
  rcases h with h | ⟨a, h⟩ | ⟨source, text, fault, hfault, h, hr⟩
  · exact .inl (congrArg (List.map Event.notice) h)
  · exact .inr (.inl ⟨a, congrArg (List.map Event.notice) h⟩)
  · exact .inr (.inr ⟨source, text, fault, hfault, congrArg (List.map Event.notice) h, hr⟩)

theorem poised_of (h : m.Poised) (draws : Draws) : (of m).Poised draws where
  consistent := consistent_of h.coherent
  events := congrArg (List.map Event.notice) h.queue
  counter := h.counter
  running := h.running
  steps := by
    cases hs : m.step draws with
    | error fault =>
        obtain ⟨r, hstep, _⟩ := step_of_error h.coherent h.running h.counter hs
        refine ⟨.error fault, r, hstep, ?_⟩
        rintro _ ⟨⟩
        exact Machine.kind_of_step h.counter hs
    | ok p =>
        obtain ⟨next, wait⟩ := p
        exact ⟨_, _, step_of h.coherent h.running (Machine.step_eq_ok_iff.1 hs), by simp⟩

/-- **Calls of a host never break the registers.**  From the start on they are answered as a machine
answers them, the registers after them are those of the machine, consistent and quiet, and a call
for an event takes its steps at registers that are ready for a step. -/
theorem performAll_consistent (calls : List Call) :
    ∃ r, performAll {} calls = .ok ((Machine.performAll {} calls).1, r) ∧
      r = of (Machine.performAll {} calls).2 ∧ r.Consistent ∧ r.Quiet ∧
      ∀ draws budget, ∃ steps event next,
        r.executeLogged draws budget = (steps, .ok (event, next)) ∧
        r.execute draws budget = .ok (event, next) ∧ ¬ event.TellsBroken ∧
        ∀ x ∈ steps, x.Poised draws := by
  have hreach : Machine.Reachable (Machine.performAll {} calls).2 :=
    Machine.Reachable.new.performAll calls
  obtain ⟨hcoherent, hquiet⟩ := hreach.coherent_quiet
  refine ⟨_, performAll_of .new calls, rfl, consistent_of hcoherent, quiet_of hquiet, ?_⟩
  intro draws budget
  obtain ⟨hpoised, _, _, hbroken⟩ := hcoherent.execute hquiet draws budget
  refine ⟨_, _, _, executeLogged_of hcoherent draws budget, ?_, hbroken, ?_⟩
  · rw [← executeLogged_val, executeLogged_of hcoherent]
  · intro x hx
    obtain ⟨y, hy, rfl⟩ := List.mem_map.1 hx
    exact poised_of (hpoised y hy) draws

example : (performAll {} [.load (.ofCode "demo" [⟨.perform .local (.input .number), ⟨1, 1⟩⟩]),
      .setTracing true, .execute (fun _ => 0.5) 1, .enter ['7', '\n']]).map
      (fun p => (p.2.input, p.2.waiting, p.2.running)) = .ok (some ['7'], false, true) := rfl

end Registers
end TwinTape
