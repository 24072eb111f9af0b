import TwinTape.Proofs.Sessions

/-! # Lines

A program asks for a line, the host enters one, and the instruction that asked reads it.  Between
these calls a host may call what it likes, in any order: it may enter a line that nobody asked for
or a second one, interrupt the run or replace it.  No line is lost, read twice or read by another
instruction.

* A line is taken if and only if the program has asked since the run was started, and no line was
  taken since it asked (`isWaiting_iff_since`).
* The machine that has a line stands at the instruction that asked (`askedFor_of_isReading`).  The
  line stays until that instruction reads it, which is the first thing it does when the host lets it
  go on, or until the run is cut off (`Keeps`).
* In a run, the lines read are the lines taken, in the same order (`exists_lost`).

The main statement is `lines_delivered_once`. -/

namespace TwinTape

/-! ### One exchange -/

namespace Machine
variable {steps : List Machine} {e : Option Event} {after : Machine} {m : Machine}
  {line : List Char}

theorem line?_eq_some_iff : m.line? = some line ↔ m.phase = .supplied line := by
  cases hp : m.phase <;> simp [line?, hp]

theorem line?_of_not_isReading (h : m.isReading = false) : m.line? = none := by
  cases hp : m.phase <;> simp_all [line?, isReading]

theorem isWaiting_of_not_isReading (h : m.isReading = false) : m.isWaiting = false := by
  cases hp : m.phase <;> simp_all [isWaiting, isReading]

theorem isReading_of_not_isRunning (h : m.isRunning = false) : m.isReading = false := by
  cases hp : m.phase <;> simp_all [isRunning, isReading]

theorem isReading_of_isWaiting (h : m.isWaiting = true) : m.isReading = true := by
  cases hp : m.phase <;> simp_all [isWaiting, isReading]

theorem isReading_of_line? (h : m.line? = some line) : m.isReading = true := by
  rw [line?_eq_some_iff] at h
  simp [isReading, h]

/-- A call that finds no line asked for leaves a machine that waits just if it tells so. -/
theorem Clear.isWaiting_iff (h : Clear steps e after) :
    after.isWaiting = true ↔ ∃ medium, e = some (.input medium) := by
  cases h with
  | done _ hafter he =>
      rw [isWaiting_of_not_isReading hafter]
      simpa using he
  | asked => simp [isWaiting]

theorem Clear.line?_after (h : Clear steps e after) : after.line? = none := by
  cases h with
  | done _ hafter _ => exact line?_of_not_isReading hafter
  | asked => rfl

theorem Clear.line?_steps (h : Clear steps e after) : ∀ x ∈ steps, x.line? = none := by
  cases h with
  | done hsteps _ _ => exact fun x hx => line?_of_not_isReading (hsteps x hx)
  | asked hsteps hp _ _ =>
      refine List.forall_mem_append.2 ⟨fun x hx => line?_of_not_isReading (hsteps x hx), ?_⟩
      simp [line?, hp]

theorem Clear.exists_of_isReading (h : Clear steps e after) (hread : after.isReading = true) :
    ∃ before y s medium, steps = before ++ [y] ∧ y.phase = .ready ∧
      y.program.instruction? y.counter = some (.perform s (.input medium)) ∧
      e = some (.input medium) ∧ after = { y with phase := .waiting } := by
  cases h with
  | done _ hafter _ =>
      rw [hafter] at hread
      contradiction
  | asked _ hp _ hi => exact ⟨_, _, _, _, rfl, hp, hi, rfl, rfl⟩

end Machine

namespace Exchange
variable {x : Exchange}

/-- The lines that the steps of the call see. -/
def received (x : Exchange) : List (List Char) := x.steps.filterMap Machine.line?

theorem Treats.isWaiting_after (h : x.Treats) : x.after.isWaiting = true ↔
    (∃ medium, x.Asks medium) ∨
      x.machine.isWaiting = true ∧ x.breaksOff = false ∧ x.accepted? = none := by
  cases h with
  | clear hread _ hclear =>
      rw [hclear.isWaiting_iff, Machine.isWaiting_of_not_isReading hread]
      simp [Asks]
  | again hp _ hasks _ hafter _ =>
      rw [hafter]
      exact iff_of_true (by simp [Machine.isWaiting, hp]) (.inl ⟨_, hasks⟩)
  | taken hp hline hevent _ hafter _ =>
      rw [hafter]
      refine iff_of_false (by simp [Machine.isWaiting]) ?_
      simp [Asks, hevent, hline]
  | read hp _ _ _ _ hclear =>
      have hno : x.machine.isWaiting = false := by simp [Machine.isWaiting, hp]
      rw [hclear.isWaiting_iff, hno]
      simp [Asks]
  | dropped _ _ hbreaks _ _ hafter hno =>
      rw [Machine.isWaiting_of_not_isReading hafter, hbreaks]
      simp [hno]
  | kept hread hcut _ haccepted _ hphase _ hno =>
      have hsame : x.after.isWaiting = x.machine.isWaiting := by
        simp [Machine.isWaiting, hphase]
      have hbreaks : x.breaksOff = false := by
        have hrun := Machine.isRunning_of_isReading hread
        have hstarts : x.call.starts = false := (Bool.or_eq_false_iff.1 hcut).1
        simpa [breaksOff, hstarts, Machine.isRunning, hphase] using hrun
      simp [hsame, hbreaks, haccepted, hno]

theorem Treats.reading_after (h : x.Treats) (hread : x.after.isReading = true) :
    (∃ s medium, x.Asks medium ∧
      x.after.program.instruction? x.after.counter = some (.perform s (.input medium))) ∨
    x.machine.isReading = true ∧ x.machine.Untouched x.after ∧ x.breaksOff = false ∧
      ∀ medium, ¬ x.Asks medium := by
  have hgoes : x.call.starts = false → x.breaksOff = false := by
    intro hstarts
    simp [breaksOff, hstarts, Machine.isRunning_of_isReading hread]
  have hclear : ∀ {steps}, Machine.Clear steps x.answer.event? x.after → ∃ s medium,
      x.Asks medium ∧
        x.after.program.instruction? x.after.counter = some (.perform s (.input medium)) := by
    intro steps hc
    obtain ⟨_, y, s, medium, _, _, hi, hasks, hafter⟩ := hc.exists_of_isReading hread
    exact ⟨s, medium, hasks, by rw [hafter]; exact hi⟩
  cases h with
  | clear _ _ hc => exact .inl (hclear hc)
  | read _ _ _ _ _ hc => exact .inl (hclear hc)
  | @again s medium _ hi hasks _ hafter _ =>
      refine .inl ⟨s, medium, hasks, ?_⟩
      rw [hafter]
      exact hi
  | taken hp _ hevent _ hafter hstarts =>
      refine .inr ⟨by simp [Machine.isReading, hp], ?_, hgoes hstarts, not_asks hevent⟩
      rw [hafter]
      exact ⟨rfl, rfl, rfl, rfl, rfl⟩
  | dropped _ _ _ _ _ hafter _ =>
      rw [hafter] at hread
      contradiction
  | kept hm hcut _ _ _ _ huntouched hno =>
      exact .inr ⟨hm, huntouched, hgoes (Bool.or_eq_false_iff.1 hcut).1, hno⟩

/-- A line that a machine has after a call was taken by it, or it was there before. -/
theorem Treats.line?_after (h : x.Treats) {line : List Char} (hline : x.after.line? = some line) :
    x.accepted? = some line ∨
      x.machine.line? = some line ∧ x.accepted? = none ∧ ∀ medium, ¬ x.Asks medium := by
  cases h with
  | clear _ _ hclear | read _ _ _ _ _ hclear =>
      rw [hclear.line?_after] at hline
      contradiction
  | again hp _ _ _ hafter _ =>
      rw [hafter, Machine.line?_eq_some_iff, hp] at hline
      contradiction
  | taken _ haccepted _ _ hafter _ =>
      rw [hafter, Machine.line?_eq_some_iff] at hline
      cases hline
      exact .inl haccepted
  | dropped _ _ _ _ _ hafter _ =>
      rw [Machine.line?_of_not_isReading hafter] at hline
      contradiction
  | kept _ _ _ haccepted _ hphase _ hno =>
      rw [Machine.line?_eq_some_iff, hphase, ← Machine.line?_eq_some_iff] at hline
      exact .inr ⟨hline, haccepted, hno⟩

/-- What was there and what was taken is what was seen and what is left, if the run goes on. -/
theorem Treats.lines (h : x.Treats) (hstarts : x.call.starts = false) :
    x.machine.line?.toList ++ x.accepted?.toList = x.received ++ x.after.line?.toList ∨
      x.after.isRunning = false ∧ x.accepted? = none ∧ x.received = [] ∧
        x.after.line? = none := by
  have hnone : ∀ {ys : List Machine}, (∀ y ∈ ys, y.line? = none) → ys.filterMap Machine.line? = [] :=
    List.filterMap_eq_nil_iff.2
  cases h with
  | clear hread haccepted hclear =>
      rw [received, hnone hclear.line?_steps, Machine.line?_of_not_isReading hread, haccepted,
        hclear.line?_after]
      exact .inl rfl
  | again hp _ _ hsteps hafter haccepted =>
      have hline : x.machine.line? = none := by simp [Machine.line?, hp]
      rw [received, hsteps, hnone (by simp [hline]), hafter, hline, haccepted]
      exact .inl rfl
  | taken hp hline _ hsteps hafter _ =>
      have hbefore : x.machine.line? = none := by simp [Machine.line?, hp]
      rw [received, hsteps, hline, hbefore, hafter]
      exact .inl rfl
  | read hp _ _ haccepted hsteps hclear =>
      have hbefore := Machine.line?_eq_some_iff.2 hp
      rw [received, hsteps, List.filterMap_cons_some hbefore, hnone hclear.line?_steps, hbefore,
        haccepted, hclear.line?_after]
      exact .inl rfl
  | dropped _ _ hbreaks haccepted hsteps hafter _ =>
      refine .inr ⟨?_, haccepted, by rw [received, hsteps]; rfl,
        Machine.line?_of_not_isReading hafter⟩
      simpa [breaksOff, hstarts] using hbreaks
  | kept _ _ _ haccepted hsteps hphase _ _ =>
      have hsame : x.after.line? = x.machine.line? := by simp [Machine.line?, hphase]
      rw [received, hsteps, haccepted, hsame]
      exact .inl (by simp)

end Exchange

/-! ### Instructions that are executed -/

/-- The step of the machine executes an instruction that reads a line: it does not ask for one. -/
def Machine.readsLine (draws : Draws) (m : Machine) : Bool :=
  match m.program.instruction? m.counter, m.step draws with
  | some (.perform _ (.input _)), .ok (_, some _) => false
  | some (.perform _ (.input _)), _ => true
  | _, _ => false

theorem Machine.readsLine_of_line? {draws : Draws} {m : Machine} (hline : m.line? = none) :
    m.readsLine draws = false := by
  unfold readsLine
  split
  · rfl
  · rename_i s medium hi hstep
    have hask : m.Steps draws { m with phase := .waiting } (some medium) := by
      refine .ask hi fun line hp => ?_
      rw [line?_eq_some_iff.2 hp] at hline
      contradiction
    exact absurd hask.step_eq (hstep _ _)
  · rfl

theorem Machine.Receives.readsLine {m : Machine} {line : List Char} (h : m.Receives line)
    (draws : Draws) : m.readsLine draws = true := by
  obtain ⟨s, medium, hi, -, hstep⟩ := h
  unfold Machine.readsLine
  rw [hi, hstep]
  cases medium.read line <;> rfl

namespace Exchange
variable {x : Exchange}

/-- The machines at which the call has executed an instruction that reads a line. -/
def inputs (x : Exchange) : List Machine :=
  match x.call with
  | .execute draws budget =>
    (x.machine.executeLogged draws budget).1.filter (Machine.readsLine draws)
  | _ => []

theorem inputs_of_line? {rest : List Machine} (h : ∀ y ∈ rest, y.line? = none)
    (hsteps : x.steps = rest) : x.inputs = [] := by
  subst hsteps
  cases hcall : x.call with
  | execute draws budget =>
      have hnone : ∀ y ∈ (x.machine.executeLogged draws budget).1, y.line? = none := by
        simpa [steps, hcall] using h
      have hempty : (x.machine.executeLogged draws budget).1.filter (Machine.readsLine draws) =
          [] := by
        refine List.filter_eq_nil_iff.2 fun y hy => ?_
        simp [Machine.readsLine_of_line? (hnone y hy)]
      simp [inputs, hcall, hempty]
  | runText | load | enter | interrupt | setTracing => simp [inputs, hcall]

/-- Each instruction that reads a line and is executed in a call receives a line. -/
theorem Treats.receives_inputs (h : x.Treats) (hcoherent : x.machine.Coherent) :
    List.Forall₂ Machine.Receives x.inputs x.received := by
  have hnone : ∀ {ys : List Machine}, x.steps = ys → (∀ y ∈ ys, y.line? = none) →
      List.Forall₂ Machine.Receives x.inputs x.received := by
    intro ys hsteps hys
    rw [inputs_of_line? hys hsteps, received, hsteps, List.filterMap_eq_nil_iff.2 hys]
    exact .nil
  cases h with
  | clear _ _ hclear => exact hnone rfl hclear.line?_steps
  | again hp _ _ hsteps _ _ => exact hnone hsteps (by simp [Machine.line?, hp])
  | taken _ _ _ hsteps _ _ | dropped _ _ _ _ hsteps _ _ | kept _ _ _ _ hsteps _ _ _ =>
      exact hnone hsteps (by simp)
  | @read line rest hp hproceeds _ _ hsteps hclear =>
      have hreceives := hcoherent.receives hp
      have hreceived : x.received = [line] := by
        rw [received, hsteps, List.filterMap_cons_some (Machine.line?_eq_some_iff.2 hp),
          List.filterMap_eq_nil_iff.2 hclear.line?_steps]
      have hinputs : x.inputs = [x.machine] := by
        cases hcall : x.call with
        | execute draws budget =>
            have hlog : (x.machine.executeLogged draws budget).1 = x.machine :: rest := by
              simpa [steps, hcall] using hsteps
            have hrest : rest.filter (Machine.readsLine draws) = [] := by
              refine List.filter_eq_nil_iff.2 fun y hy => ?_
              simp [Machine.readsLine_of_line? (hclear.line?_steps y hy)]
            simp [inputs, hcall, hlog, hreceives.readsLine draws, hrest]
        | runText | load | enter | interrupt | setTracing => simp [hcall, Call.proceeds] at hproceeds
      rw [hreceived, hinputs]
      exact .cons hreceives .nil

end Exchange

/-! ### Whole sessions -/

namespace Session
variable (calls : List Call)

/-- The machine waits if it has asked since the run was started, and no line was taken since. -/
theorem isWaiting_iff_since : (machine calls).isWaiting = true ↔
    Since (fun x => ∃ medium, x.Asks medium)
      (fun x => x.breaksOff = false ∧ x.accepted? = none) (log calls) := by
  induction calls using List.reverseRecOn with
  | nil =>
      refine iff_of_false (by simp [machine, Machine.performAll, Machine.isWaiting]) ?_
      rintro ⟨earlier, x, later, hlog, _⟩
      simp [log, Machine.exchanges] at hlog
  | append_singleton calls c ih =>
      have htreats := (reachable_machine calls).treats c
      rw [machine_append_singleton, log_append_singleton, since_append_singleton, ← ih]
      exact htreats.isWaiting_after

/-- The instruction at the counter of the machine has made the last request of the log, and the
machine is as it was then, but for the phase. -/
def AskedFor (log : List Exchange) (m : Machine) (medium : Medium) : Prop :=
  (∃ s, m.program.instruction? m.counter = some (.perform s (.input medium))) ∧
    Since (fun x => x.Asks medium ∧ x.after.Untouched m)
      (fun x => (∀ medium', ¬ x.Asks medium') ∧ x.breaksOff = false) log

variable {calls}

/-- A machine that waits for a line or has one stands at the instruction that asked last. -/
theorem askedFor_of_isReading (hread : (machine calls).isReading = true) :
    ∃ medium, AskedFor (log calls) (machine calls) medium := by
  induction calls using List.reverseRecOn with
  | nil => simp [machine, Machine.performAll, Machine.isReading] at hread
  | append_singleton calls c ih =>
      rw [machine_append_singleton] at hread ⊢
      rw [log_append_singleton]
      rcases ((reachable_machine calls).treats c).reading_after hread with
        ⟨s, medium, hasks, hi⟩ | ⟨hm, huntouched, hbreaks, hno⟩
      · exact ⟨medium, ⟨s, hi⟩, since_append_last _ ⟨hasks, .refl _⟩⟩
      · obtain ⟨medium, ⟨s, hi⟩, hsince⟩ := ih hm
        have hsame : ∀ x : Exchange, x.Asks medium ∧ x.after.Untouched (machine calls) →
            x.Asks medium ∧ x.after.Untouched ((machine calls).perform c).2 :=
          fun x hx => ⟨hx.1, hx.2.trans huntouched⟩
        refine ⟨medium, ⟨s, ?_⟩, since_append_singleton.2 (.inr ⟨hsince.imp hsame, hno, hbreaks⟩)⟩
        have hprogram : ((machine calls).perform c).2.program = _ := huntouched.program
        have hcounter : ((machine calls).perform c).2.counter = _ := huntouched.counter
        rw [hprogram, hcounter]
        exact hi

/-- The line that a machine has is the last one that was taken, and it was taken after the last
request. -/
theorem since_accepted {line : List Char} (hline : (machine calls).line? = some line) :
    Since (fun x => x.accepted? = some line)
      (fun x => x.accepted? = none ∧ ∀ medium, ¬ x.Asks medium) (log calls) := by
  induction calls using List.reverseRecOn with
  | nil => simp [machine, Machine.performAll, Machine.line?] at hline
  | append_singleton calls c ih =>
      rw [machine_append_singleton] at hline
      rw [log_append_singleton, since_append_singleton]
      rcases ((reachable_machine calls).treats c).line?_after hline with haccepted |
        ⟨hbefore, haccepted, hno⟩
      · exact .inl haccepted
      · exact .inr ⟨ih hbefore, haccepted, hno⟩

end Session

/-! ### Runs -/

namespace Machine
variable {m : Machine} {calls : List Call}

theorem exchange_of_not_running {c : Call} (h : m.isRunning = false) (hc : c.starts = false) :
    Exchange.steps ⟨m, c⟩ = [] ∧ Exchange.accepted? ⟨m, c⟩ = none ∧
      (Exchange.after ⟨m, c⟩).isRunning = false := by
  cases c with
  | runText source text => simp [Call.starts] at hc
  | load program => simp [Call.starts] at hc
  | execute draws budget =>
      refine ⟨?_, rfl, ?_⟩
      · refine steps_of_not_active (fun ha => ?_) budget
        rw [ha.running] at h
        contradiction
      · simp only [Exchange.after, perform, execute]
        split
        · exact h
        · split
          · rfl
          · rw [h]
            exact h
  | enter line =>
      have hp : m.phase ≠ .waiting := by
        intro hp
        simp [isRunning, hp] at h
      have henter := enter_of_not_waiting hp line
      refine ⟨rfl, ?_, ?_⟩
      · simp [Exchange.accepted?, Exchange.answer, perform, henter]
      · simpa [Exchange.after, perform, henter] using h
  | interrupt =>
      refine ⟨rfl, rfl, ?_⟩
      simpa only [Exchange.after, perform, isRunning, phase_interrupt] using h
  | setTracing on => exact ⟨rfl, rfl, h⟩

/-- In a run, the lines taken are the lines that were read, in the same order, then the one that is
there, and one that was lost when the run was cut off. -/
theorem Reachable.exists_lost (h : Reachable m) (hline : m.line? = none)
    (hcalls : ∀ c ∈ calls, c.starts = false) :
    ∃ read lost, List.Forall₂ Receives ((m.exchanges calls).flatMap Exchange.inputs) read ∧
      (m.exchanges calls).filterMap Exchange.accepted? =
        read ++ (m.performAll calls).2.line?.toList ++ lost ∧
      lost.length ≤ 1 ∧ (lost = [] ∨ (m.performAll calls).2.isRunning = false) := by
  induction calls using List.reverseRecOn with
  | nil => exact ⟨[], [], .nil, by simp [exchanges, Machine.performAll, hline], by simp, .inl rfl⟩
  | append_singleton calls c ih =>
      obtain ⟨hcalls', hc⟩ := List.forall_mem_append.1 hcalls
      have hstarts : c.starts = false := hc c (by simp)
      obtain ⟨read, lost, hread, hgiven, hlength, hlost⟩ := ih hcalls'
      have hreach := h.performAll calls
      rw [exchanges_append, performAll_append, List.flatMap_append, List.filterMap_append, hgiven]
      generalize (m.performAll calls).2 = m₁ at hgiven hlost hreach ⊢
      have htreats := hreach.treats c
      have hinputs := htreats.receives_inputs hreach.coherent_quiet.1
      have hread' : List.Forall₂ Receives ((m.exchanges calls).flatMap Exchange.inputs ++
          (m₁.exchanges [c]).flatMap Exchange.inputs) (read ++ Exchange.received ⟨m₁, c⟩) := by
        refine List.rel_append hread ?_
        simpa [exchanges] using hinputs
      have hafter : (m₁.performAll [c]).2 = Exchange.after ⟨m₁, c⟩ := rfl
      have haccepted : (m₁.exchanges [c]).filterMap Exchange.accepted? =
          (Exchange.accepted? ⟨m₁, c⟩).toList := by
        cases ha : Exchange.accepted? ⟨m₁, c⟩ <;> simp [exchanges, ha]
      refine ⟨read ++ Exchange.received ⟨m₁, c⟩, ?_⟩
      rw [hafter, haccepted]
      by_cases hrun : m₁.isRunning = true
      · obtain rfl : lost = [] := hlost.resolve_right (by simp [hrun])
        rcases htreats.lines hstarts with hlines | ⟨hstopped, hnone, hreceived, hempty⟩
        · refine ⟨[], hread', ?_, by simp, .inl rfl⟩
          rw [List.append_nil, List.append_assoc, hlines, List.append_nil, List.append_assoc]
        · refine ⟨m₁.line?.toList, hread', ?_, ?_, .inr hstopped⟩
          · simp [hnone, hreceived, hempty]
          · cases m₁.line? <;> simp
      · rw [Bool.not_eq_true] at hrun
        obtain ⟨hsteps, hnone, hstopped⟩ := exchange_of_not_running hrun hstarts
        have hempty : ∀ {m : Machine}, m.isRunning = false → m.line? = none :=
          fun hm => line?_of_not_isReading (isReading_of_not_isRunning hm)
        refine ⟨lost, hread', ?_, hlength, .inr hstopped⟩
        rw [hempty hrun, hempty hstopped, hnone, Exchange.received, hsteps]
        simp

end Machine

/-! ### Every line once -/

/-- What a call does with the line that a machine has; which of the three it is depends only on the
call and on whether the run was interrupted. -/
inductive Exchange.Fate (x : Exchange) (line : List Char) : Prop
  /-- The program goes on: its first step reads the line, and no other step sees one. -/
  | read {rest : List Machine} : x.call.proceeds = true → x.cutsOff = false →
      x.steps = x.machine :: rest → x.machine.Receives line → (∀ y ∈ rest, y.line? = none) →
      x.after.line? = none → Fate x line
  /-- A program is started, or the host is told of the interrupt: the line is dropped. -/
  | dropped : x.cutsOff = true → x.steps = [] → x.after.line? = none → Fate x line
  /-- Any other call leaves the line and the machine as they are. -/
  | kept : x.call.proceeds = false → x.cutsOff = false → x.steps = [] →
      x.after.line? = some line → x.machine.Untouched x.after → Fate x line

theorem Machine.Reachable.fate {m : Machine} {line : List Char} (h : Reachable m)
    (hline : m.line? = some line) (c : Call) : Exchange.Fate ⟨m, c⟩ line := by
  have hp : m.phase = .supplied line := line?_eq_some_iff.1 hline
  have hread := isReading_of_line? hline
  cases h.treats c with
  | clear hclear => simp [hread] at hclear
  | again hwaiting | taken hwaiting => simp [hp] at hwaiting
  | read _ hproceeds hcut _ hsteps hclear =>
      exact .read hproceeds hcut hsteps (h.coherent_quiet.1.receives hp) hclear.line?_steps
        hclear.line?_after
  | dropped _ hcut _ _ hsteps hafter _ =>
      exact .dropped hcut hsteps (line?_of_not_isReading hafter)
  | kept _ hcut hproceeds _ hsteps hphase huntouched _ =>
      refine .kept hproceeds hcut hsteps ?_ huntouched
      rw [line?_eq_some_iff, hphase]
      exact hp

theorem Machine.Reachable.line?_steps {m : Machine} (h : Reachable m) (hline : m.line? = none)
    (c : Call) : ∀ y ∈ Exchange.steps ⟨m, c⟩, y.line? = none := by
  cases h.treats c with
  | clear _ _ hclear => exact hclear.line?_steps
  | again _ _ _ hsteps _ _ => simpa [hsteps] using hline
  | read hp => simp [line?_eq_some_iff.2 hp] at hline
  | taken _ _ _ hsteps _ _ | dropped _ _ _ _ hsteps _ _ | kept _ _ _ _ hsteps _ _ _ =>
      simp [hsteps]

/-- How lines go from the host to the program in a session. -/
structure Session.DeliversOnce (calls : List Call) : Prop where
  /-- A line is taken if and only if the program has asked in this run, and no line was taken since
  it asked. -/
  taken_iff : ∀ line, ((machine calls).enter line).1 = true ↔
    Since (fun x => ∃ medium, x.Asks medium)
      (fun x => x.breaksOff = false ∧ x.accepted? = none) (log calls)
  /-- A line that is taken is there for the instruction that asked. -/
  holds : ∀ line, ((machine calls).enter line).1 = true → ((machine calls).enter line).2 =
    { machine calls with phase := .supplied (lineContent line) }
  /-- Nothing comes of any other line. -/
  refuses : ∀ line, ((machine calls).enter line).1 = false →
    ((machine calls).enter line).2 = machine calls
  /-- A machine that waits makes its last request again and stays as it is. -/
  asksAgain : (machine calls).isWaiting = true → (machine calls).interrupted = false →
    ∃ medium, AskedFor (log calls) (machine calls) medium ∧ ∀ draws budget, 0 < budget →
      (machine calls).execute draws budget = (.input medium, machine calls)
  /-- The line that a machine has is the last one taken, and the instruction at the counter has
  asked for it. -/
  origin : ∀ line, (machine calls).line? = some line →
    (∃ medium, AskedFor (log calls) (machine calls) medium) ∧
    Since (fun x => x.accepted? = some line)
      (fun x => x.accepted? = none ∧ ∀ medium, ¬ x.Asks medium) (log calls)
  /-- It is kept until it is read or dropped. -/
  fate : ∀ line c, (machine calls).line? = some line → Exchange.Fate ⟨machine calls, c⟩ line
  /-- Nothing else is ever seen as a line. -/
  unseen : ∀ c, (machine calls).line? = none →
    ∀ y ∈ Exchange.steps ⟨machine calls, c⟩, y.line? = none
  /-- In a run, the instructions executed that read a line have received the lines taken, one each
  and in the same order, but for the line that is there and one that was dropped. -/
  inOrder : ∀ program more, (∀ c ∈ more, Call.starts c = false) →
    ∃ read lost, List.Forall₂ Machine.Receives
        ((((machine calls).load program).exchanges more).flatMap Exchange.inputs) read ∧
      (((machine calls).load program).exchanges more).filterMap Exchange.accepted? =
        read ++ (((machine calls).load program).performAll more).2.line?.toList ++ lost ∧
      lost.length ≤ 1 ∧
      (lost = [] ∨ (((machine calls).load program).performAll more).2.isRunning = false)

/-- **Lines are delivered once, to the instruction that asked**, whatever the host calls. -/
theorem Session.lines_delivered_once (calls : List Call) : DeliversOnce calls where
  taken_iff line := by
    rw [← isWaiting_iff_since]
    unfold Machine.enter
    split
    · exact iff_of_true rfl ‹_›
    · exact iff_of_false Bool.false_ne_true ‹_›
  holds line htaken := by
    unfold Machine.enter at htaken ⊢
    split
    · rfl
    · rename_i hwaiting
      simp [hwaiting] at htaken
  refuses line hrefused := by
    unfold Machine.enter at hrefused ⊢
    split
    · rename_i hwaiting
      simp [hwaiting] at hrefused
    · rfl
  asksAgain hwaiting hinterrupted := by
    have hread := Machine.isReading_of_isWaiting hwaiting
    obtain ⟨medium, hasked⟩ := askedFor_of_isReading hread
    refine ⟨medium, hasked, fun draws budget hb => ?_⟩
    obtain ⟨⟨s, hi⟩, _⟩ := hasked
    have ha : (machine calls).Active := ⟨(reachable_machine calls).queue_of_isReading hread,
      hinterrupted, Machine.isRunning_of_isReading hread⟩
    have hp : (machine calls).phase = .waiting := by simpa [Machine.isWaiting] using hwaiting
    obtain ⟨budget, rfl⟩ := Nat.exists_eq_add_of_lt hb
    rw [Nat.zero_add, ← Machine.executeLogged_val, ha.executeLogged_waiting hp hi]
  origin line hline :=
    ⟨askedFor_of_isReading (Machine.isReading_of_line? hline), since_accepted hline⟩
  fate line c hline := (reachable_machine calls).fate hline c
  unseen c hline := (reachable_machine calls).line?_steps hline c
  inOrder program more hmore :=
    (Machine.Reachable.load program (reachable_machine calls)).exists_lost rfl hmore

/-- The calls of a host that starts a program, is asked for a number and enters a line. -/
def Session.answered : List Call :=
  [.load (.ofCode "demo" [⟨.perform .local (.input .number), ⟨1, 1⟩⟩]),
    .execute (fun _ => 0.5) 1, .enter ['7', '\r', '\n']]

/-- The line is there, no other one is taken, and an interrupt drops it. -/
theorem Session.lines_delivered_once_answered :
    (machine answered).line? = some ['7'] ∧
    ¬ Since (fun x => ∃ medium, x.Asks medium)
      (fun x => x.breaksOff = false ∧ x.accepted? = none) (log answered) ∧
    Exchange.Fate ⟨machine answered, .execute (fun _ => 0.5) 3⟩ ['7'] ∧
    Exchange.Fate ⟨machine (answered ++ [.interrupt]), .execute (fun _ => 0.5) 3⟩ ['7'] := by
  refine ⟨rfl, ?_, ?_, ?_⟩
  · exact mt ((lines_delivered_once answered).taken_iff ['8']).2 (by decide)
  · exact (lines_delivered_once answered).fate ['7'] _ rfl
  · exact (lines_delivered_once (answered ++ [.interrupt])).fate ['7'] _ rfl

end TwinTape
