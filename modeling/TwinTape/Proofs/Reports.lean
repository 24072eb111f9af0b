import TwinTape.Proofs.Sessions
import TwinTape.Proofs.Untraced

/-! # Reports of executed instructions

While reports are wanted, the host gets one for each instruction that is completed, in the order of
execution: a step completes its instruction if the machine is ready for the next one after it
(`Machine.completed?`).  A report is told after everything else that its instruction has to tell, and
before the next step is taken (`Moment.Follows`).

What is known after each tick is `Reporting`: the reports told and the reports that wait are those of
the completed instructions, and what waits belongs to the last step.  Every tick keeps it
(`Reporting.tick`), so it holds of every course.  With what the machine without reports does, this is
all there is to say about reports (`tracing_observes`). -/

namespace TwinTape

/-! ### Completed instructions -/

namespace Machine
variable {draws : Draws} {m next : Machine}

/-- The address of the instruction that a step completes, if it completes one. -/
def completed? (draws : Draws) (m : Machine) : Option ℕ :=
  match m.step draws with
  | .ok (next, _) => if next.phase = .ready then some m.counter else none
  | .error _ => none

/-- The addresses in the reports that wait to be told. -/
def reports (m : Machine) : List ℕ := m.queue.filterMap Notice.address?

theorem completed?_of_error {fault : Fault} (h : m.step draws = .error fault) :
    m.completed? draws = none := by
  simp [completed?, h]

theorem Steps.completed?_of_wait {medium : Medium} (h : Steps draws m next (some medium)) :
    m.completed? draws = none := by
  rw [completed?, h.step_eq]
  cases h with
  | ask => rfl

/-- A report is queued by the steps that complete an instruction. -/
theorem Steps.traced_eq (h : Steps draws m next none) (hc : m.Coherent) (hr : m.isRunning = true)
    (ht : m.tracing = true) :
    m.completed? draws = some m.counter ∧
        next.traced m.counter = next.push (.trace m.counter) ∨
      m.completed? draws = none ∧ next.traced m.counter = next := by
  have hrun := h.isRunning hr
  have hread := h.isReading_of_none hc
  have htracing : next.tracing = true := by rw [h.frame.2.2, ht]
  have hcompleted : m.completed? draws = if next.phase = .ready then some m.counter else none := by
    rw [Machine.completed?, h.step_eq]
  cases hp : next.phase with
  | idle => simp [Machine.isRunning, hp] at hrun
  | ready => exact .inl ⟨by simp [hcompleted, hp], by simp [traced, hp, htracing]⟩
  | waiting => simp [isReading, hp] at hread
  | supplied line => simp [isReading, hp] at hread
  | repeating r => exact .inr ⟨by simp [hcompleted, hp], by simp [traced, hp]⟩

end Machine

/-! ### The order of events -/

namespace Moment
variable {draws : Draws} {a : ℕ} {ms : List Moment} {x : Moment}

/-- The address in the report that is told, if one is told. -/
def address? : Moment → Option ℕ
  | .event (.notice n) _ => n.address?
  | _ => none

/-- The addresses in the reports told. -/
def reports (ms : List Moment) : List ℕ := ms.filterMap address?

/-- The addresses of the instructions completed. -/
def completed (draws : Draws) (ms : List Moment) : List ℕ :=
  (steps ms).filterMap (Machine.completed? draws)

section lists
variable (draws : Draws) (ms ms' : List Moment) (x : Moment) (m : Machine) (e : Event) (h : Host)

@[simp] theorem reports_append : reports (ms ++ ms') = reports ms ++ reports ms' :=
  List.filterMap_append

@[simp] theorem reports_singleton : reports [x] = x.address?.toList := by
  cases hx : x.address? <;> simp [reports, hx]

@[simp] theorem completed_append :
    completed draws (ms ++ ms') = completed draws ms ++ completed draws ms' := by
  rw [completed, steps_append, List.filterMap_append]
  rfl

@[simp] theorem completed_event : completed draws [.event e h] = [] := rfl

@[simp] theorem completed_step : completed draws [.step m] = (m.completed? draws).toList := by
  cases hm : m.completed? draws <;> simp [completed, hm]

end lists

/-- The moment is neither a step nor a report. -/
def isAside : Moment → Bool
  | .step _ => false
  | .event (.notice (.trace _)) _ => false
  | _ => true

/-- No report has been told since the last step. -/
def Unreported (ms : List Moment) : Prop :=
  Since (fun x => ∃ m, x = .step m) (fun x => x.isAside) ms

/-- The last step completed the instruction at `a`, and no report has been told since. -/
def JustCompleted (draws : Draws) (a : ℕ) (ms : List Moment) : Prop :=
  Since (fun x => ∃ m, x = .step m ∧ m.completed? draws = some a) (fun x => x.isAside) ms

/-- What has happened before a moment.  A report is that of the last step, and whatever else an
instruction has to tell is told before its report. -/
def Follows (draws : Draws) (before : List Moment) : Moment → Prop
  | .event (.notice (.trace a)) _ => JustCompleted draws a before
  | .event (.notice _) _ => Unreported before
  | .event (.input _) _ => Unreported before
  | _ => True

theorem JustCompleted.unreported (h : JustCompleted draws a ms) : Unreported ms :=
  h.imp fun _ ⟨m, hm, _⟩ => ⟨m, hm⟩

theorem follows_append_singleton (hms : ∀ before y, before ++ [y] <+: ms → y.Follows draws before)
    (hx : x.Follows draws ms) :
    ∀ before y, before ++ [y] <+: ms ++ [x] → y.Follows draws before := by
  intro before y h
  rcases List.prefix_concat_iff.1 h with heq | hprefix
  · obtain ⟨rfl, hy⟩ := List.append_inj' heq rfl
    cases hy
    exact hx
  · exact hms before y hprefix

end Moment

/-- The reports of a course that has led to the machine `m`. -/
structure Reported (draws : Draws) (ms : List Moment) (m : Machine) : Prop where
  /-- The reports told, and those that wait, are those of the completed instructions. -/
  addresses : Moment.completed draws ms = Moment.reports ms ++ m.reports
  follows : ∀ before x, before ++ [x] <+: ms → x.Follows draws before
  /-- Nothing waits when the run is over. -/
  ended : m.isRunning = false → m.reports = []

/-! ### What waits to be told -/

/-- What may wait to be told after the moments `ms`. -/
inductive Untold (draws : Draws) (ms : List Moment) : List Notice → Prop
  | nothing : Untold draws ms []
  | report {a : ℕ} : Moment.JustCompleted draws a ms → Untold draws ms [.trace a]
  | other {n : Notice} : n.address? = none → Moment.Unreported ms → Untold draws ms [n]
  | both {n : Notice} {a : ℕ} :
      n.address? = none → Moment.JustCompleted draws a ms → Untold draws ms [n, .trace a]

/-- What holds after each tick while reports are wanted. -/
structure Reporting (draws : Draws) (ms : List Moment) (m : Machine) : Prop extends
    Reported draws ms m where
  coherent : m.Coherent
  interrupted : m.interrupted = false
  tracing : m.tracing = true
  untold : Untold draws ms m.queue

namespace Reporting
variable {draws : Draws} {ms : List Moment} {m next : Machine} {h : Host}

theorem deliver (r : Reporting draws ms m) {n : Notice} {queue : List Notice}
    (hq : m.queue = n :: queue) (after : Host) :
    Reporting draws (ms ++ [.event (.notice n) after]) { m with queue := queue } := by
  have hreports : m.reports = n.address?.toList ++ queue.filterMap Notice.address? := by
    rw [Machine.reports, hq, List.filterMap_cons]
    cases n.address? <;> rfl
  have huntold := r.untold
  rw [hq] at huntold
  refine ⟨⟨?_, ?_, ?_⟩, r.coherent.congr rfl rfl rfl, r.interrupted, r.tracing, ?_⟩
  · rw [Moment.completed_append, Moment.completed_event, List.append_nil, Moment.reports_append,
      Moment.reports_singleton, List.append_assoc, r.addresses, hreports]
    rfl
  · refine Moment.follows_append_singleton r.follows ?_
    cases huntold with
    | report hc => exact hc
    | other hn hu =>
        cases n with
        | trace a => simp [Notice.address?] at hn
        | print | warning | fault => exact hu
    | both hn hc =>
        cases n with
        | trace a => simp [Notice.address?] at hn
        | print | warning | fault => exact hc.unreported
  · intro hrun
    have hnone := r.ended hrun
    rw [hreports] at hnone
    exact (List.append_eq_nil_iff.1 hnone).2
  · cases huntold with
    | report hc => exact .nothing
    | other hn hu => exact .nothing
    | both hn hc =>
        refine .report (hc.append ?_)
        cases n with
        | trace a => simp [Notice.address?] at hn
        | print | warning | fault => simp [Moment.isAside]

theorem addresses_of_nil (r : Reporting draws ms m) (hq : m.queue = []) :
    Moment.completed draws ms = Moment.reports ms := by
  rw [r.addresses, Machine.reports, hq, List.filterMap_nil, List.append_nil]

theorem of_nil (haddresses : Moment.completed draws ms = Moment.reports ms)
    (hfollows : ∀ before x, before ++ [x] <+: ms → x.Follows draws before) (hq : m.queue = [])
    (hc : m.Coherent) (hi : m.interrupted = false) (ht : m.tracing = true) :
    Reporting draws ms m := by
  have hreports : m.reports = [] := by rw [Machine.reports, hq, List.filterMap_nil]
  refine ⟨⟨?_, hfollows, fun _ => hreports⟩, hc, hi, ht, ?_⟩
  · rw [hreports, haddresses, List.append_nil]
  · rw [hq]
    exact .nothing

theorem halt (r : Reporting draws ms m) (hq : m.queue = []) (after : Host) :
    Reporting draws (ms ++ [.event .stopped after]) m.stop := by
  refine of_nil ?_ (Moment.follows_append_singleton r.follows trivial) hq ?_ r.interrupted r.tracing
  · simp [r.addresses_of_nil hq, Moment.address?]
  · exact Machine.coherent_of_calm r.coherent.counter (.inl rfl)

theorem tell (r : Reporting draws ms m) (hq : m.queue = []) {e : Event} {after : Host}
    (hcompleted : m.completed? draws = none) (he : Moment.address? (.event e after) = none)
    (hfollows : Moment.Unreported (ms ++ [.step m]) →
      Moment.Follows draws (ms ++ [.step m]) (.event e after))
    (hq' : next.queue = []) (hc : next.Coherent) (hi : next.interrupted = m.interrupted)
    (ht : next.tracing = m.tracing) :
    Reporting draws (ms ++ [.step m] ++ [.event e after]) next := by
  refine of_nil ?_ ?_ hq' hc (hi.trans r.interrupted) (ht.trans r.tracing)
  · simp only [Moment.completed_append, Moment.completed_step, Moment.completed_event,
      Moment.reports_append, Moment.reports_singleton, r.addresses_of_nil hq, hcompleted, he]
    rfl
  · refine Moment.follows_append_singleton ?_ (hfollows (since_append_last ms ⟨m, rfl⟩))
    exact Moment.follows_append_singleton r.follows trivial

theorem proceed (r : Reporting draws ms m) (hq : m.queue = []) (hr : m.isRunning = true)
    (hs : m.Steps draws next none) :
    Reporting draws (ms ++ [.step m]) (next.traced m.counter) := by
  have hnext : next.queue = [] ∨ ∃ n, next.queue = [n] ∧ n.address? = none := by
    rcases hs.queue with h | ⟨out, h⟩ | h
    · exact .inl (h.trans hq)
    · exact .inr ⟨.print out, by rw [h, hq]; rfl, rfl⟩
    · exact .inr ⟨.warning .tooLeft, by rw [h, hq]; rfl, rfl⟩
  have hreports : next.reports = [] := by
    rcases hnext with h | ⟨n, h, hn⟩
    · rw [Machine.reports, h, List.filterMap_nil]
    · simp [Machine.reports, h, hn]
  have hrun : ¬ next.isRunning = false := by simp [hs.isRunning hr]
  have hfollows : ∀ before x, before ++ [x] <+: ms ++ [.step m] → x.Follows draws before :=
    Moment.follows_append_singleton r.follows trivial
  have hcoherent := hs.coherent r.coherent
  have hinterrupted : next.interrupted = false := by rw [hs.frame.2.1, r.interrupted]
  have htracing : next.tracing = true := by rw [hs.frame.2.2, r.tracing]
  rcases hs.traced_eq r.coherent hr r.tracing with ⟨hcompleted, htraced⟩ | ⟨hcompleted, htraced⟩
  · have hjust : Moment.JustCompleted draws m.counter (ms ++ [.step m]) :=
      since_append_last ms ⟨m, rfl, hcompleted⟩
    rw [htraced]
    refine ⟨⟨?_, hfollows, fun h => absurd h hrun⟩, hcoherent.congr rfl rfl rfl, hinterrupted,
      htracing, ?_⟩
    · have hpush : (next.push (.trace m.counter)).reports = next.reports ++ [m.counter] := by
        simp [Machine.reports, Machine.push, Notice.address?]
      simp [r.addresses_of_nil hq, hcompleted, hpush, hreports, Moment.address?]
    · rcases hnext with h | ⟨n, h, hn⟩
      · simpa [Machine.push, h] using Untold.report hjust
      · simpa [Machine.push, h] using Untold.both hn hjust
  · rw [htraced]
    refine ⟨⟨?_, hfollows, fun h => absurd h hrun⟩, hcoherent, hinterrupted, htracing, ?_⟩
    · simp [r.addresses_of_nil hq, hcompleted, hreports, Moment.address?]
    · rcases hnext with h | ⟨n, h, hn⟩
      · rw [h]
        exact .nothing
      · rw [h]
        exact .other hn (since_append_last ms ⟨m, rfl⟩)

theorem ask (r : Reporting draws ms m) (hq : m.queue = []) {medium : Medium}
    (hs : m.Steps draws next (some medium)) (lines : List (List Char)) (after : Host) :
    Reporting draws (ms ++ [.step m] ++ [.event (.input medium) after])
      (Host.receive (.input medium) next lines).machine := by
  have hcompleted := hs.completed?_of_wait
  have hcoherent := hs.coherent r.coherent
  have hphase : next.phase = .waiting := by
    cases hs with
    | ask => rfl
  have hqueue : next.queue = [] := hs.queue_of_wait.trans hq
  cases lines with
  | nil =>
      exact r.tell hq hcompleted rfl id hqueue hcoherent hs.frame.2.1 hs.frame.2.2
  | cons line lines =>
      rw [Host.receive, Machine.enter_of_waiting hphase]
      refine r.tell hq hcompleted rfl id hqueue ?_ hs.frame.2.1 hs.frame.2.2
      exact ⟨hcoherent.counter, by simp, fun _ _ => hcoherent.waiting hphase, by simp⟩

theorem tick_of_step (r : Reporting draws ms h.machine) (ha : h.machine.Active)
    (hc : ¬ h.machine.program.size ≤ h.machine.counter) :
    Reporting draws (ms ++ h.tickMoments draws) (h.tick draws).2.machine := by
  have hs : h.machine.isStepping = true := Machine.isStepping_iff.2 ⟨ha, by omega⟩
  have ht : h.machine.tick draws = _ := ha.tick_eq
  rw [if_neg hc] at ht
  unfold Host.tickMoments Host.tick
  rw [if_pos hs, ht, ← List.append_assoc]
  cases hstep : h.machine.step draws with
  | error fault =>
      refine r.tell ha.queue (Machine.completed?_of_error hstep) rfl id rfl ?_ rfl rfl
      exact Machine.coherent_of_calm r.coherent.counter (.inl rfl)
  | ok p =>
      have hsteps := Machine.step_eq_ok_iff.1 hstep
      obtain ⟨next, _ | medium⟩ := p
      · have hproceed := r.proceed ha.queue ha.running hsteps
        rwa [← List.append_nil (ms ++ _)] at hproceed
      · exact r.ask ha.queue hsteps h.lines _

/-- Every tick keeps what is known about reports. -/
theorem tick (r : Reporting draws ms h.machine) :
    Reporting draws (ms ++ h.tickMoments draws) (h.tick draws).2.machine := by
  by_cases hs : h.machine.isStepping = true
  · obtain ⟨ha, hc⟩ := Machine.isStepping_iff.1 hs
    exact r.tick_of_step ha (by omega)
  · unfold Host.tickMoments Host.tick
    rw [if_neg hs, List.nil_append]
    cases hq : h.machine.queue with
    | cons n queue =>
        rw [Machine.tick_of_queue hq]
        exact r.deliver hq _
    | nil =>
        by_cases hr : h.machine.isRunning = true
        · have ha : h.machine.Active := ⟨hq, r.interrupted, hr⟩
          have hc : h.machine.program.size ≤ h.machine.counter := by
            by_contra hc
            exact hs (Machine.isStepping_iff.2 ⟨ha, by omega⟩)
          rw [ha.tick_eq, if_pos hc]
          exact r.halt hq _
        · have hstop : h.machine.stop = h.machine := by
            have hp : h.machine.phase = .idle := by simpa [Machine.isRunning] using hr
            rw [Machine.stop, ← hp]
          have ht : h.machine.tick draws = (some .stopped, h.machine) := by
            simp [Machine.tick, hq, r.interrupted, hr]
          have hhalt := r.halt hq ⟨h.machine, h.lines⟩
          rw [hstop] at hhalt
          rw [ht]
          exact hhalt

theorem ticks (r : Reporting draws ms h.machine) (k : ℕ) :
    Reporting draws (ms ++ (h.tickCourse draws k).1) (h.tickCourse draws k).2.machine := by
  induction k generalizing h ms with
  | zero =>
      rw [Host.tickCourse, List.append_nil]
      exact r
  | succ k ih =>
      rw [Host.tickCourse, ← List.append_assoc]
      exact ih r.tick

theorem load (draws : Draws) (m : Machine) (p : Program) :
    Reporting draws [] ((m.load p).setTracing true) :=
  of_nil rfl (by simp) rfl (Machine.coherent_of_calm (Nat.zero_le _) (.inr rfl)) rfl rfl

end Reporting

/-- **Reports only observe.**  A host may switch the reports on and off between its calls: but for
the reports, it hears what it would hear without them, with the same machine after each event.  If
the reports stay on, they are those of the completed instructions, each told after everything else
that its instruction tells and before the next step. -/
theorem Machine.tracing_observes (draws : Draws) (m : Machine) (p : Program)
    (lines : List (List Char)) :
    (∀ (budgets budgets' : ℕ → ℕ) (switches : ℕ → List Bool),
      ((∀ i, 0 < budgets' i) → ∀ n, ∃ k,
        Host.heard draws budgets' k ⟨(m.load p).setTracing false, lines⟩ =
          Host.plain (Host.watch draws budgets switches n ⟨m.load p, lines⟩).1) ∧
      ((∀ i, 0 < budgets i) → ∀ k, ∃ n,
        Host.plain (Host.watch draws budgets switches n ⟨m.load p, lines⟩).1 =
          Host.heard draws budgets' k ⟨(m.load p).setTracing false, lines⟩)) ∧
    ∀ (budgets : ℕ → ℕ) (n : ℕ),
      Reported draws
        (Moment.told (Host.course draws budgets n ⟨(m.load p).setTracing true, lines⟩).1)
        (Host.course draws budgets n ⟨(m.load p).setTracing true, lines⟩).2.machine := by
  refine ⟨fun budgets budgets' switches => ⟨fun hb' n => ?_, fun hb k => ?_⟩, fun budgets n => ?_⟩
  · exact Host.exists_heard_of_watch budgets switches hb' n ⟨m.load p, lines⟩
  · exact Host.exists_watch_of_heard hb switches budgets' k ⟨m.load p, lines⟩
  · obtain ⟨k, hk⟩ := Host.tickCourse_of_course draws budgets n
      ⟨(m.load p).setTracing true, lines⟩
    have r : Reporting draws [] ((m.load p).setTracing true) := .load draws m p
    have hticks := @Reporting.ticks draws [] ⟨(m.load p).setTracing true, lines⟩ r k
    rw [hk, List.nil_append] at hticks
    exact hticks.toReported

/-- A program that repeats an action in two bursts and then prints. -/
def Program.repeatThenPrint : Program :=
  .ofCode "demo" [⟨.act .local (.times 1500) .increment, ⟨1, 1⟩⟩,
    ⟨.perform .local (.output .number), ⟨1, 2⟩⟩]

/-- The repetition is reported once, and the reports can be switched before every call. -/
theorem Machine.tracing_observes_repeatThenPrint :
    Moment.reports (Host.course (fun _ => 0.5) (fun _ => 1) 6
      ⟨(Machine.load {} .repeatThenPrint).setTracing true, []⟩).1 = [0, 1] ∧
    (∀ n, Reported (fun _ => 0.5)
      (Moment.told (Host.course (fun _ => 0.5) (fun _ => 1) n
        ⟨(Machine.load {} .repeatThenPrint).setTracing true, []⟩).1)
      (Host.course (fun _ => 0.5) (fun _ => 1) n
        ⟨(Machine.load {} .repeatThenPrint).setTracing true, []⟩).2.machine) ∧
    ∀ n, ∃ k,
      Host.heard (fun _ => 0.5) (fun i => i + 1) k
          ⟨(Machine.load {} .repeatThenPrint).setTracing false, []⟩ =
        Host.plain (Host.watch (fun _ => 0.5) (fun _ => 1) (fun i => [i % 2 == 0]) n
          ⟨Machine.load {} .repeatThenPrint, []⟩).1 := by
  obtain ⟨hplain, hreported⟩ := tracing_observes (fun _ => 0.5) {} .repeatThenPrint []
  refine ⟨by decide +kernel, hreported (fun _ => 1), ?_⟩
  exact (hplain (fun _ => 1) (fun i => i + 1) _).1 Nat.succ_pos

end TwinTape
