import TwinTape.Proofs.Compile
import TwinTape.Proofs.JumpTable
import TwinTape.Proofs.Ticks

/-! # What holds of every machine

A machine is `Reachable` if it comes from a new one by any calls a host can make.  The phase of
such a machine fits the instruction at its counter (`Coherent`), and between two calls at most one
notice is left to be told (`Quiet`).

The instrumented `runLogged` is `run` with a record of the machines at which a step was taken
(`runLogged_val`), so what is said about all steps of a call is said about this record: each of
these machines is `Poised`, and the call never tells that the machine is broken
(`Coherent.execute`). -/

namespace TwinTape

/-- The event says that the machine is broken. -/
def Event.TellsBroken (e : Event) : Prop := ∃ f, e = .notice (.fault f) ∧ f.kind = .internal

namespace Machine

variable {draws : Draws} {m next : Machine} {wait : Option Medium}

/-! ### Phases and instructions -/

/-- The line that was entered and has not been read yet. -/
def line? (m : Machine) : Option (List Char) :=
  match m.phase with
  | .supplied line => some line
  | _ => none

/-- The repetition that has not been finished yet. -/
def unfinished? (m : Machine) : Option Repetition :=
  match m.phase with
  | .repeating r => some r
  | _ => none

/-- The instruction at the counter reads a line. -/
def AtInput (m : Machine) : Prop :=
  ∃ s medium, m.program.instruction? m.counter = some (.perform s (.input medium))

/-- The instruction at the counter can be repeated, and `a` is its action or the opposite. -/
def AtAction (m : Machine) (a : Action) : Prop :=
  ∃ i, m.program.instruction? m.counter = some i ∧ i.command.acceptsRepeat ∧
    (i.command = .act a ∨ i.command.opposite? = some (.act a))

/-- The phase fits the instruction at the counter. -/
structure Coherent (m : Machine) : Prop where
  counter : m.counter ≤ m.program.size
  waiting : m.phase = .waiting → m.AtInput
  supplied : ∀ line, m.phase = .supplied line → m.AtInput
  repeating : ∀ r, m.phase = .repeating r → m.AtAction r.action ∧ 1 ≤ r.left

/-- In these phases nothing is needed of the instruction. -/
theorem coherent_of_calm (hc : m.counter ≤ m.program.size)
    (hp : m.phase = .idle ∨ m.phase = .ready) : m.Coherent := by
  refine ⟨hc, ?_, ?_, ?_⟩
  · intro h
    rw [h] at hp
    simp at hp
  · intro line h
    rw [h] at hp
    simp at hp
  · intro r h
    rw [h] at hp
    simp at hp

theorem Coherent.congr (h : m.Coherent) (hprogram : next.program = m.program)
    (hcounter : next.counter = m.counter) (hphase : next.phase = m.phase) : next.Coherent := by
  refine ⟨?_, ?_, ?_, ?_⟩
  · rw [hprogram, hcounter]
    exact h.counter
  · unfold AtInput
    rw [hprogram, hcounter, hphase]
    exact h.waiting
  · unfold AtInput
    rw [hprogram, hcounter, hphase]
    exact h.supplied
  · unfold AtAction
    rw [hprogram, hcounter, hphase]
    exact h.repeating

/-- At an instruction that neither reads a line nor can be repeated, the phase is a calm one. -/
theorem Coherent.calm (h : m.Coherent) {i : Instruction}
    (hi : m.program.instruction? m.counter = some i)
    (hinput : ∀ s medium, i ≠ .perform s (.input medium))
    (hact : i.command.acceptsRepeat = false) : m.phase = .idle ∨ m.phase = .ready := by
  cases hp : m.phase with
  | idle => exact .inl rfl
  | ready => exact .inr rfl
  | waiting =>
      obtain ⟨s, medium, hi'⟩ := h.waiting hp
      rw [hi] at hi'
      exact absurd (Option.some.inj hi') (hinput s medium)
  | supplied line =>
      obtain ⟨s, medium, hi'⟩ := h.supplied line hp
      rw [hi] at hi'
      exact absurd (Option.some.inj hi') (hinput s medium)
  | repeating r =>
      obtain ⟨⟨i', hi', hrepeat, _⟩, _⟩ := h.repeating r hp
      rw [hi] at hi'
      cases hi'
      rw [hact] at hrepeat
      exact absurd hrepeat (by decide)

/-! ### One step -/

theorem target?_lt_size {p : Program} {a b : ℕ} (h : p.jumps.target? a = some b) : b < p.size := by
  rw [p.jumps_eq, JumpTable.target?_eq_some_iff] at h
  obtain ⟨k, he | he⟩ := h
  · simpa [Program.size] using lt_length_of_bracketAt he.closing
  · simpa [Program.size] using lt_length_of_bracketAt he.opening

theorem signed_action (a : Action) (n : ℤ) :
    (a.signed n).1 = a ∨ (a.signed n).1 = a.opposite := by
  unfold Action.signed
  split
  · exact .inr rfl
  · exact .inl rfl

theorem resolve?_action {times : Repeat} {a b : Action} {cell : Float} {n : ℕ}
    (h : times.resolve? a cell = some (b, n)) : b = a ∨ b = a.opposite := by
  cases times with
  | once =>
      cases h
      exact .inl rfl
  | times k =>
      have hs := signed_action a k.toInt
      rw [Option.some.inj h] at hs
      exact hs
  | byCell =>
      obtain ⟨k, _, hk⟩ := Option.map_eq_some_iff.1 h
      have hs := signed_action a (Repeat.saturate k)
      rw [hk] at hs
      exact hs

/-- What is repeated is the action of the instruction, or its opposite. -/
theorem Coherent.repetition?_action (h : m.Coherent) {s : Scope} {times : Repeat} {a : Action}
    {r : Repetition} (hi : m.program.instruction? m.counter = some (.act s times a))
    (hr : m.repetition? s times a = some r) : r.action = a ∨ r.action = a.opposite := by
  unfold repetition? at hr
  split at hr
  · rename_i rest hp
    cases hr
    obtain ⟨⟨i, hi', _, haction⟩, _⟩ := h.repeating r hp
    rw [hi] at hi'
    cases hi'
    cases haction with
    | inl haction => exact .inl (Command.act.inj haction).symm
    | inr haction => exact .inr (Command.act.inj (Option.some.inj haction)).symm
  · obtain ⟨⟨b, n⟩, hb, rfl⟩ := Option.map_eq_some_iff.1 hr
    exact resolve?_action hb

/-- A step leaves a coherent machine coherent. -/
theorem Steps.coherent (hs : Steps draws m next wait) (h : m.Coherent) : next.Coherent := by
  cases hs with
  | @burst s times a r hi hr =>
      have hlt := Program.lt_size_of_instruction? hi
      have haction := h.repetition?_action hi hr
      rw [repeatBurst_eq]
      by_cases hb : Machine.burst < r.left
      · refine ⟨?_, ?_, ?_, ?_⟩
        · simpa [hb] using hlt.le
        · simp [hb]
        · simp [hb]
        · intro r' hr'
          simp only [hb, if_true, Phase.repeating.injEq] at hr'
          subst hr'
          refine ⟨⟨.act s times a, ?_, rfl, ?_⟩, by simp only; omega⟩
          · simpa [hb] using hi
          · rcases haction with haction | haction
            · exact .inl (by rw [haction]; rfl)
            · exact .inr (by rw [haction]; rfl)
      · refine coherent_of_calm ?_ (.inr ?_)
        · simpa [hb] using Nat.succ_le_of_lt hlt
        · simp [hb]
  | @input s medium line x hi =>
      refine coherent_of_calm ?_ (.inr rfl)
      simpa [advance, goto] using Nat.succ_le_of_lt (Program.lt_size_of_instruction? hi)
  | @ask s medium hi =>
      refine ⟨h.counter, fun _ => ⟨s, medium, hi⟩, ?_, ?_⟩
      · simp
      · simp
  | @opening s form target hi ht =>
      have hlt := Program.lt_size_of_instruction? hi
      have htarget := target?_lt_size ht
      have hcalm := h.calm hi (by simp) rfl
      refine coherent_of_calm ?_ (by simpa [stepOpening_eq] using hcalm)
      rw [stepOpening_eq]
      dsimp only
      split
      · exact htarget
      · exact hlt
  | @closing s form target hi ht =>
      have hlt := Program.lt_size_of_instruction? hi
      have htarget := target?_lt_size ht
      have hcalm := h.calm hi (by simp) rfl
      refine coherent_of_calm ?_ (by simpa [stepClosing_eq] using hcalm)
      rw [stepClosing_eq]
      dsimp only
      split
      · exact hlt
      · exact htarget
  | random hi | switchTape hi | output hi | reserved hi | swap hi =>
      have hlt := Program.lt_size_of_instruction? hi
      have hcalm := h.calm hi (by simp) rfl
      apply coherent_of_calm
      · simpa [advance, goto, push, swapCells] using Nat.succ_le_of_lt hlt
      · simpa [advance, goto, push, swapCells] using hcalm

/-! ### Runs -/

/-- `run`, with a record of the machines at which a step was taken. -/
def runLogged (draws : Draws) : ℕ → Machine → List Machine × Event × Machine
  | 0, m => ([], .running, m)
  | budget + 1, m =>
    if m.program.size ≤ m.counter then ([], .stopped, m.stop)
    else match m.step draws with
      | .error fault =>
        ([m], .notice (.fault (fault.inSource m.program.source)), { m.stop with queue := [] })
      | .ok (next, some medium) => ([m], .input medium, next)
      | .ok (next, none) =>
        match (next.traced m.counter).queue with
        | n :: queue => ([m], .notice n, { next with queue := queue })
        | [] => (m :: (runLogged draws budget next).1, (runLogged draws budget next).2)

/-- `execute`, with a record of the machines at which a step was taken. -/
def executeLogged (draws : Draws) (budget : ℕ) (m : Machine) : List Machine × Event × Machine :=
  match m.queue with
  | n :: queue => ([], .notice n, { m with queue := queue })
  | [] =>
    if m.interrupted then
      ([], .notice (.fault m.breakFault), { m.stop with interrupted := false })
    else if m.isRunning then m.runLogged draws budget
    else ([], .stopped, m)

theorem runLogged_val (draws : Draws) (budget : ℕ) (m : Machine) :
    (m.runLogged draws budget).2 = m.run draws budget := by
  induction budget generalizing m with
  | zero => rfl
  | succ budget ih =>
      rw [runLogged, run]
      by_cases hc : m.program.size ≤ m.counter
      · rw [if_pos hc, if_pos hc]
      · rw [if_neg hc, if_neg hc]
        cases m.step draws with
        | error f => rfl
        | ok p =>
            obtain ⟨next, _ | medium⟩ := p
            · dsimp only
              cases (next.traced m.counter).queue with
              | nil => exact ih next
              | cons n queue => rfl
            · rfl

theorem executeLogged_val (draws : Draws) (budget : ℕ) (m : Machine) :
    (m.executeLogged draws budget).2 = m.execute draws budget := by
  unfold executeLogged execute
  cases m.queue with
  | cons n queue => rfl
  | nil =>
      by_cases hi : m.interrupted
      · simp [hi, breakFault]
      · by_cases hr : m.isRunning
        · simp [hi, hr, runLogged_val]
        · simp [hi, hr]

/-- What is left to be told between two calls: at most a report of an executed instruction, or the
fault of a text that did not compile, and then nothing runs. -/
def Quiet (m : Machine) : Prop :=
  m.queue = [] ∨ (∃ a, m.queue = [.trace a]) ∨
    ∃ source text f, Program.compile source text = .error f ∧ m.queue = [.fault f] ∧
      m.isRunning = false

/-- The machine is about to take a step. -/
structure Poised (m : Machine) : Prop where
  coherent : m.Coherent
  queue : m.queue = []
  counter : m.counter < m.program.size
  running : m.isRunning = true

/-- What there is to tell after a step: nothing, or something that is no fault, and then perhaps a
report. -/
theorem Steps.traced_queue (hs : Steps draws m next wait) (hq : m.queue = []) (a : ℕ) :
    ((next.traced a).queue = [] ∧ next.queue = []) ∨
    ∃ n queue, (next.traced a).queue = n :: queue ∧ (∀ f, n ≠ .fault f) ∧
      (queue = [] ∨ ∃ b, queue = [.trace b]) := by
  have hnext : next.queue = [] ∨ ∃ n, next.queue = [n] ∧ ∀ f, n ≠ .fault f := by
    rcases hs.queue with h | ⟨out, h⟩ | h
    · exact .inl (h.trans hq)
    · exact .inr ⟨.print out, by rw [h, hq]; rfl, by simp⟩
    · exact .inr ⟨.warning .tooLeft, by rw [h, hq]; rfl, by simp⟩
  cases traced_eq_or next a with
  | inl htr =>
      rw [htr]
      rcases hnext with h | ⟨n, h, hn⟩
      · exact .inl ⟨h, h⟩
      · exact .inr ⟨n, [], h, hn, .inl rfl⟩
  | inr htr =>
      rw [htr, push]
      rcases hnext with h | ⟨n, h, hn⟩
      · exact .inr ⟨.trace a, [], by simp [h], by simp, .inl rfl⟩
      · exact .inr ⟨n, [.trace a], by simp [h], hn, .inr ⟨a, rfl⟩⟩

theorem Steps.queue_of_wait {medium : Medium} (hs : Steps draws m next (some medium)) :
    next.queue = m.queue := by
  cases hs with
  | ask => rfl

/-- A run takes its steps at poised machines, and leaves a coherent and quiet one. -/
theorem Coherent.run (h : m.Coherent) (hq : m.queue = []) (hr : m.isRunning = true)
    (budget : ℕ) :
    (∀ x ∈ (m.runLogged draws budget).1, x.Poised) ∧
    (m.runLogged draws budget).2.2.Coherent ∧ (m.runLogged draws budget).2.2.Quiet ∧
    ¬ (m.runLogged draws budget).2.1.TellsBroken := by
  induction budget generalizing m with
  | zero => exact ⟨by simp [runLogged], h, .inl hq, by simp [runLogged, Event.TellsBroken]⟩
  | succ budget ih =>
      rw [runLogged]
      by_cases hc : m.program.size ≤ m.counter
      · rw [if_pos hc]
        refine ⟨by simp, ?_, .inl hq, by simp [Event.TellsBroken]⟩
        exact coherent_of_calm h.counter (.inl rfl)
      · rw [if_neg hc]
        have hlt : m.counter < m.program.size := by omega
        have hpoised : m.Poised := ⟨h, hq, hlt, hr⟩
        cases hs : m.step draws with
        | error f =>
            refine ⟨by simpa using hpoised, ?_, .inl rfl, ?_⟩
            · exact coherent_of_calm h.counter (.inl rfl)
            · rintro ⟨f', hf', hkind⟩
              cases hf'
              exact kind_of_step hlt hs hkind
        | ok p =>
            obtain ⟨next, _ | medium⟩ := p
            · have hsteps := step_eq_ok_iff.1 hs
              have hnext := hsteps.coherent h
              rcases hsteps.traced_queue hq m.counter with ⟨hall, hempty⟩ |
                ⟨n, queue, hall, hn, hrest⟩
              · simp only [hall]
                obtain ⟨hsteps', hrest⟩ := ih hnext hempty (hsteps.isRunning hr)
                exact ⟨List.forall_mem_cons.2 ⟨hpoised, hsteps'⟩, hrest⟩
              · simp only [hall]
                refine ⟨by simpa using hpoised, hnext.congr rfl rfl rfl, ?_, ?_⟩
                · rcases hrest with rfl | ⟨b, rfl⟩
                  · exact .inl rfl
                  · exact .inr (.inl ⟨b, rfl⟩)
                · rintro ⟨f, hf, _⟩
                  cases hf
                  exact hn f rfl
            · have hsteps := step_eq_ok_iff.1 hs
              have hempty := hsteps.queue_of_wait.trans hq
              exact ⟨by simpa using hpoised, hsteps.coherent h, .inl hempty,
                by simp [Event.TellsBroken]⟩

/-! ### Calls -/

/-- The machines that a host can get by its calls. -/
inductive Reachable : Machine → Prop
  | new : Reachable {}
  | runText {m : Machine} (source text : String) : Reachable m → Reachable (m.runText source text)
  | load {m : Machine} (program : Program) : Reachable m → Reachable (m.load program)
  | execute {m : Machine} (draws : Draws) (budget : ℕ) :
      Reachable m → Reachable (m.execute draws budget).2
  | enter {m : Machine} (line : List Char) : Reachable m → Reachable (m.enter line).2
  | interrupt {m : Machine} : Reachable m → Reachable m.interrupt
  | setTracing {m : Machine} (on : Bool) : Reachable m → Reachable (m.setTracing on)

theorem coherent_load (m : Machine) (program : Program) : (m.load program).Coherent :=
  coherent_of_calm (Nat.zero_le _) (.inr rfl)

theorem Quiet.not_tellsBroken (hq : m.Quiet) {n : Notice} {queue : List Notice}
    (h : m.queue = n :: queue) : ¬ (Event.notice n).TellsBroken ∧ queue = [] := by
  rcases hq with hq | ⟨a, hq⟩ | ⟨source, text, f, hf, hq, _⟩
  · rw [hq] at h
    contradiction
  · rw [hq] at h
    cases h
    exact ⟨by simp [Event.TellsBroken], rfl⟩
  · rw [hq] at h
    cases h
    refine ⟨?_, rfl⟩
    rintro ⟨f', hf', hkind⟩
    cases hf'
    rcases Program.kind_of_compile hf with h | h <;> rw [h] at hkind <;> contradiction

/-- A call takes its steps at poised machines, and leaves a coherent and quiet one. -/
theorem Coherent.execute (h : m.Coherent) (hq : m.Quiet) (draws : Draws) (budget : ℕ) :
    (∀ x ∈ (m.executeLogged draws budget).1, x.Poised) ∧
    (m.executeLogged draws budget).2.2.Coherent ∧ (m.executeLogged draws budget).2.2.Quiet ∧
    ¬ (m.executeLogged draws budget).2.1.TellsBroken := by
  unfold executeLogged
  cases hqueue : m.queue with
  | cons n queue =>
      obtain ⟨hn, rfl⟩ := hq.not_tellsBroken hqueue
      exact ⟨by simp, h.congr rfl rfl rfl, .inl rfl, hn⟩
  | nil =>
      dsimp only
      split
      · refine ⟨by simp, coherent_of_calm h.counter (.inl rfl), .inl hqueue, ?_⟩
        rintro ⟨f, hf, hkind⟩
        cases hf
        contradiction
      · split
        · exact h.run hqueue ‹_› budget
        · exact ⟨by simp, h, hq, by simp [Event.TellsBroken]⟩

theorem Reachable.coherent_quiet (h : Reachable m) : m.Coherent ∧ m.Quiet := by
  induction h with
  | new => exact ⟨coherent_of_calm (Nat.zero_le _) (.inl rfl), .inl rfl⟩
  | @runText m source text _ ih =>
      unfold Machine.runText
      split
      · exact ⟨coherent_load m _, .inl rfl⟩
      · rename_i f hf
        exact ⟨coherent_of_calm ih.1.counter (.inl rfl),
          .inr (.inr ⟨source, text, f, hf, rfl, rfl⟩)⟩
  | @load m program _ _ => exact ⟨coherent_load m program, .inl rfl⟩
  | @execute m draws budget _ ih =>
      obtain ⟨_, hcoherent, hquiet, _⟩ := ih.1.execute ih.2 draws budget
      rw [executeLogged_val] at hcoherent hquiet
      exact ⟨hcoherent, hquiet⟩
  | @enter m line _ ih =>
      unfold Machine.enter
      split
      · rename_i hw
        have hphase : m.phase = .waiting := by simpa [isWaiting] using hw
        refine ⟨⟨ih.1.counter, by simp, fun _ _ => ih.1.waiting hphase, by simp⟩, ?_⟩
        rcases ih.2 with hq | hq | ⟨source, text, f, hf, hq, hrun⟩
        · exact .inl hq
        · exact .inr (.inl hq)
        · simp [isRunning, hphase] at hrun
      · exact ih
  | @interrupt m _ ih =>
      unfold Machine.interrupt
      split
      · exact ⟨ih.1.congr rfl rfl rfl, ih.2⟩
      · exact ih
  | @setTracing m on _ ih => exact ⟨ih.1.congr rfl rfl rfl, ih.2⟩

end Machine
end TwinTape
