import TwinTape.Proofs.Lines

/-! # Failures

An instruction that fails ends the run and leaves no other trace.  What it may have done before is
to ask for a line, and the machine is as it was when the instruction began: the memories, the
counter and the brackets entered are the same (`begun_of_isReading`).  The host gets one fault, with
the name of the program and the place of the instruction, and after that every call for an event
says that the machine has stopped, until a program is started (`failure_is_final`). -/

namespace TwinTape

/-! ### Where an instruction began -/

/-- If a call leaves a machine at a request, the instruction has begun at the last step, or before
the call. -/
theorem Exchange.Treats.begun {x : Exchange} (h : x.Treats) (hread : x.after.isReading = true) :
    (∃ before y, x.steps = before ++ [y] ∧ y.phase = .ready ∧ y.Untouched x.after) ∨
    x.machine.isReading = true ∧ x.machine.Untouched x.after ∧ ∀ y ∈ x.steps, y.phase ≠ .ready := by
  have hclear : ∀ {steps}, Machine.Clear steps x.answer.event? x.after →
      ∃ before y, steps = before ++ [y] ∧ y.phase = .ready ∧ y.Untouched x.after := by
    intro steps hc
    obtain ⟨before, y, _, _, hsteps, hp, _, _, hafter⟩ := hc.exists_of_isReading hread
    refine ⟨before, y, hsteps, hp, ?_⟩
    rw [hafter]
    exact ⟨rfl, rfl, rfl, rfl, rfl⟩
  cases h with
  | clear _ _ hc => exact .inl (hclear hc)
  | read _ _ _ _ hsteps hc =>
      obtain ⟨before, y, hrest, hy⟩ := hclear hc
      exact .inl ⟨x.machine :: before, y, by rw [hsteps, hrest]; rfl, hy⟩
  | again hp _ _ hsteps hafter _ =>
      refine .inr ⟨by simp [Machine.isReading, hp], ?_, ?_⟩
      · rw [hafter]
        exact .refl _
      · simp [hsteps, hp]
  | taken hp _ _ hsteps hafter _ =>
      refine .inr ⟨by simp [Machine.isReading, hp], ?_, ?_⟩
      · rw [hafter]
        exact ⟨rfl, rfl, rfl, rfl, rfl⟩
      · simp [hsteps]
  | dropped _ _ _ _ _ hafter _ =>
      rw [hafter] at hread
      contradiction
  | kept hm _ _ _ hsteps _ huntouched _ => exact .inr ⟨hm, huntouched, by simp [hsteps]⟩

namespace Session
variable {calls : List Call}

/-- The steps of a session. -/
def steps (calls : List Call) : List Machine := (log calls).flatMap Exchange.steps

theorem steps_append_singleton (calls : List Call) (c : Call) :
    steps (calls ++ [c]) = steps calls ++ Exchange.steps ⟨machine calls, c⟩ := by
  simp [steps, log_append_singleton]

/-- The last instruction of these steps began at a machine from which `m` differs in the phase at
most. -/
def BegunFrom (steps : List Machine) (m : Machine) : Prop :=
  Since (fun y => y.phase = .ready ∧ y.Untouched m) (fun y => y.phase ≠ .ready) steps

/-- While an instruction reads a line, the machine is as it was when the instruction began. -/
theorem begun_of_isReading (hread : (machine calls).isReading = true) :
    BegunFrom (steps calls) (machine calls) := by
  induction calls using List.reverseRecOn with
  | nil => simp [machine, Machine.performAll, Machine.isReading] at hread
  | append_singleton calls c ih =>
      rw [machine_append_singleton] at hread ⊢
      rw [steps_append_singleton]
      rcases ((reachable_machine calls).treats c).begun hread with ⟨before, y, hsteps, hy⟩ |
        ⟨hm, huntouched, hsteps⟩
      · rw [hsteps, ← List.append_assoc]
        exact since_append_last _ hy
      · have hbegun := (ih hm).append hsteps
        exact hbegun.imp fun y hy => ⟨hy.1, hy.2.trans huntouched⟩

end Session

/-! ### Steps that fail -/

namespace Machine
variable {draws : Draws} {m : Machine} {fault : Fault}

theorem position_of_step (hc : m.counter < m.program.size) (h : m.step draws = .error fault) :
    fault.position = some (m.program.position m.counter) := by
  obtain ⟨i, cause, _, _, rfl⟩ := stepInstruction_of_error hc h
  rfl

/-- A step that goes on with a repetition does not fail. -/
theorem Coherent.not_repeating_of_error (h : m.Coherent) (hstep : m.step draws = .error fault)
    (r : Repetition) : m.phase ≠ .repeating r := by
  intro hp
  obtain ⟨⟨i, hi, haccepts, _⟩, _⟩ := h.repeating r hp
  cases i with
  | act s times a =>
      have hs : m.Steps draws (m.repeatBurst s r) none := .burst hi (by simp [repetition?, hp])
      rw [hs.step_eq] at hstep
      contradiction
  | perform => exact absurd haccepts Bool.false_ne_true
  | swap => exact absurd haccepts Bool.false_ne_true

/-- How a call fails: its last step does, at a machine that has just begun the instruction or is
the one that got the call. -/
structure FailsAt (draws : Draws) (m : Machine) (fault : Fault) (before : List Machine)
    (y : Machine) : Prop where
  error : ∃ cause, y.step draws = .error cause ∧ fault = cause.inSource y.program.source ∧
    cause.position = some (y.program.position y.counter)
  coherent : y.Coherent
  counter : y.counter < y.program.size
  program : y.program = m.program
  interrupted : y.interrupted = false
  begins : y.phase = .ready ∨ before = [] ∧ y = m ∧ m.isReading = true

theorem Coherent.failsAt (h : m.Coherent) (ha : m.Active) (hc : m.counter < m.program.size)
    {cause : Fault} (hstep : m.step draws = .error cause) :
    FailsAt draws m (cause.inSource m.program.source) [] m where
  error := ⟨cause, hstep, rfl, position_of_step hc hstep⟩
  coherent := h
  counter := hc
  program := rfl
  interrupted := ha.interrupted
  begins := by
    have hrun := ha.running
    cases hp : m.phase with
    | idle => simp [isRunning, hp] at hrun
    | ready => exact .inl rfl
    | waiting => exact .inr ⟨rfl, rfl, by simp [isReading, hp]⟩
    | supplied line => exact .inr ⟨rfl, rfl, by simp [isReading, hp]⟩
    | repeating r => exact absurd hp (h.not_repeating_of_error hstep r)

theorem Coherent.run_of_fault (h : m.Coherent) (ha : m.Active) (budget : ℕ)
    (hfault : (m.runLogged draws budget).2.1 = .notice (.fault fault)) :
    ∃ before y, (m.runLogged draws budget).1 = before ++ [y] ∧
      (m.runLogged draws budget).2.2 = { y.stop with queue := [] } ∧
      FailsAt draws m fault before y := by
  induction budget generalizing m with
  | zero => simp [runLogged] at hfault
  | succ budget ih =>
      by_cases hc : m.program.size ≤ m.counter
      · rw [runLogged, if_pos hc] at hfault
        contradiction
      · have hlt : m.counter < m.program.size := by omega
        cases hstep : m.step draws with
        | error cause =>
            rw [runLogged, if_neg hc, hstep] at hfault ⊢
            cases hfault
            exact ⟨[], m, rfl, rfl, h.failsAt ha hlt hstep⟩
        | ok p =>
            obtain ⟨next, _ | medium⟩ := p
            · have hs := step_eq_ok_iff.1 hstep
              rw [runLogged, if_neg hc, hstep] at hfault ⊢
              rcases hs.traced_queue ha.queue m.counter with ⟨hall, hempty⟩ |
                ⟨n, queue, hall, hn, _⟩
              · simp only [hall] at hfault ⊢
                have hact : next.Active := ⟨hempty, by rw [hs.frame.2.1]; exact ha.interrupted,
                  hs.isRunning ha.running⟩
                obtain ⟨before, y, hsteps, hafter, hfails⟩ := ih (hs.coherent h) hact hfault
                refine ⟨m :: before, y, by rw [hsteps]; rfl, hafter, ?_⟩
                have hbegins : y.phase = .ready := by
                  refine hfails.begins.resolve_right ?_
                  rintro ⟨_, _, hread⟩
                  rw [hs.isReading_of_none h] at hread
                  contradiction
                exact { hfails with
                  program := hfails.program.trans hs.frame.1
                  begins := .inl hbegins }
              · simp only [hall] at hfault
                cases hfault
                exact absurd rfl (hn fault)
            · rw [runLogged, if_neg hc, hstep] at hfault
              contradiction

/-- A call that ends in a fault of an instruction ends with a step that fails. -/
theorem Reachable.execute_of_fault (h : Reachable m) {budget : ℕ}
    (hfault : (m.execute draws budget).1 = .notice (.fault fault))
    (hkind : fault.kind ∈ [.unmatchedBracket, .invalidNumber, .invalidCharacter, .invalidInput]) :
    ∃ before y, (m.executeLogged draws budget).1 = before ++ [y] ∧
      (m.execute draws budget).2 = { y.stop with queue := [] } ∧
      FailsAt draws m fault before y := by
  obtain ⟨hcoherent, hquiet⟩ := h.coherent_quiet
  cases hq : m.queue with
  | cons n queue =>
      rw [execute_of_queue hq] at hfault
      cases hfault
      rcases hquiet with hq' | ⟨a, hq'⟩ | ⟨source, text, f, hf, hq', _⟩
      · rw [hq'] at hq
        contradiction
      · rw [hq'] at hq
        cases hq
      · rw [hq'] at hq
        cases hq
        rcases Program.kind_of_compile hf with hf | hf <;> simp [hf] at hkind
  | nil =>
      by_cases hi : m.interrupted = true
      · rw [← executeLogged_val, executeLogged_of_interrupted hq hi] at hfault
        cases hfault
        contradiction
      · by_cases hr : m.isRunning = true
        · have ha : m.Active := ⟨hq, by simpa using hi, hr⟩
          rw [← executeLogged_val, ha.executeLogged_eq] at hfault ⊢
          exact hcoherent.run_of_fault ha budget hfault
        · simp [Machine.execute, hq, hi, hr] at hfault

end Machine

/-! ### What a failure leaves -/

namespace Session

/-- The machine after an instruction has failed, with the steps up to the failure. -/
structure Fails (draws : Draws) (p : Program) (steps : List Machine) (fault : Fault)
    (after : Machine) : Prop where
  /-- The memories, the counter and the brackets entered are as they were when the instruction
  began. -/
  begun : BegunFrom steps after
  /-- The last step has failed, and the fault is that of the step. -/
  failed : ∃ y cause, steps.getLast? = some y ∧ y.Untouched after ∧
    y.step draws = .error cause ∧ fault = cause.inSource p.source
  program : after.program = p
  source : fault.source = some p.source
  /-- The fault is at the place of the instruction at the counter. -/
  position : fault.position = some (p.position after.counter)
  counter : after.counter < p.size
  /-- Nothing runs, no line and no repetition is left. -/
  phase : after.phase = .idle
  queue : after.queue = []
  /-- Until a program is started, the machine says that it has stopped, and stays as it is. -/
  final : ∀ later, (∀ c ∈ later, Call.starts c = false) →
    Answer.events (after.performAll later).1 =
      List.replicate (later.countP Call.executes) .stopped ∧
    after.Untouched (after.performAll later).2

theorem events_of_stopped {m : Machine} (hrun : m.isRunning = false) (hq : m.queue = [])
    (hi : m.interrupted = false) {later : List Call} (hlater : ∀ c ∈ later, c.starts = false) :
    Answer.events (m.performAll later).1 = List.replicate (later.countP Call.executes) .stopped ∧
      m.Untouched (m.performAll later).2 := by
  have hhalting : m.Halting := .inl hrun
  obtain ⟨hevents, huntouched⟩ := hhalting.performAll hlater
  refine ⟨?_, huntouched⟩
  have hfare : m.farewell = [] := by simp [Machine.farewell, hq, hi]
  rw [hfare, List.nil_append] at hevents
  rw [← Machine.length_events_performAll m later]
  exact List.eq_replicate_iff.2 ⟨rfl, fun e he => List.eq_of_mem_replicate (hevents.subset he)⟩

/-- **A failure is atomic, precise and final.** -/
theorem failure_is_final (calls : List Call) {draws : Draws} {budget : ℕ} {fault : Fault}
    (hfault : ((machine calls).execute draws budget).1 = .notice (.fault fault))
    (hkind : fault.kind ∈ [.unmatchedBracket, .invalidNumber, .invalidCharacter, .invalidInput]) :
    Fails draws (machine calls).program (steps (calls ++ [.execute draws budget])) fault
      ((machine calls).execute draws budget).2 := by
  obtain ⟨before, y, hsteps, hafter, hfails⟩ :=
    (reachable_machine calls).execute_of_fault hfault hkind
  obtain ⟨cause, hstep, hcause, hposition⟩ := hfails.error
  have huntouched : y.Untouched { y.stop with queue := [] } := ⟨rfl, rfl, rfl, rfl, rfl⟩
  have hall : steps (calls ++ [.execute draws budget]) = steps calls ++ before ++ [y] := by
    rw [steps_append_singleton, List.append_assoc, ← hsteps]
    rfl
  rw [hafter, hall]
  refine ⟨?_, ?_, hfails.program, ?_, ?_, ?_, rfl, rfl, ?_⟩
  · rcases hfails.begins with hready | ⟨rfl, rfl, hread⟩
    · exact since_append_last _ ⟨hready, huntouched⟩
    · rw [List.append_nil]
      have hbegun : BegunFrom (steps calls) { (machine calls).stop with queue := [] } :=
        (begun_of_isReading hread).imp fun x hx => ⟨hx.1, hx.2.trans huntouched⟩
      refine hbegun.append ?_
      rcases Machine.isReading_iff.1 hread with hp | ⟨line, hp⟩ <;> simp [hp]
  · exact ⟨y, cause, by simp, huntouched, hstep, by rw [hcause, hfails.program]⟩
  · rw [hcause, ← hfails.program]
    rfl
  · rw [hcause, ← hfails.program]
    exact hposition
  · rw [← hfails.program]
    exact hfails.counter
  · intro later hlater
    exact @events_of_stopped { y.stop with queue := [] } rfl rfl hfails.interrupted later hlater

/-- A host that enters a letter where the program reads a number: the instruction at the first place
of the text is at fault. -/
theorem failure_is_final_letter :
    let calls : List Call :=
      [.load (.ofCode "demo" [⟨.perform .local (.input .number), ⟨1, 1⟩⟩]),
        .execute (fun _ => 0.5) 1, .enter ['x']]
    let fault : Fault :=
      { kind := .invalidNumber, source := some "demo", position := some ⟨1, 1⟩ }
    ((machine calls).execute (fun _ => 0.5) 3).1 = .notice (.fault fault) ∧
    Fails (fun _ => 0.5) (machine calls).program (steps (calls ++ [.execute (fun _ => 0.5) 3])) fault
      ((machine calls).execute (fun _ => 0.5) 3).2 := by
  intro calls fault
  have hfault : ((machine calls).execute (fun _ => 0.5) 3).1 = .notice (.fault fault) := by rfl
  exact ⟨hfault, failure_is_final calls hfault (by decide)⟩

end Session
end TwinTape
