import TwinTape.Proofs.Bursts
import TwinTape.Proofs.Concatenation
import TwinTape.Proofs.Failures
import Mathlib.Data.Prod.Lex

/-! # Programs without brackets

A program without brackets executes its instructions one after the other, but not one in each
step: a repetition takes a step for each burst, an instruction that reads a line takes a step to
ask for it, and between two steps the notices are told.

* `Goes` and `Closes` say what a tick of such a program can do: go on, or end the run.  A run ends
  with its last event, or with a request that no line answers.
* A tick that goes on makes `Machine.distance` smaller, in the lexicographic order: the
  instructions that are left, the bursts left of the one at the counter, and what has to be told
  or asked before the next step (`Goes.distance_lt`).
* A host that has a line for each instruction that reads one never lacks a line
  (`Goes.stocked`, `Closes.isFinal_of_stocked`). -/

namespace TwinTape

/-! ### Requests of a program -/

/-- The instruction reads a line. -/
def Instruction.asks : Instruction → Bool
  | .perform _ (.input _) => true
  | _ => false

namespace Program
variable {p : Program} {a : ℕ}

/-- No instruction is a bracket. -/
def BracketFree (p : Program) : Prop := ∀ i ∈ p.instructions, i.bracket? = none

instance (p : Program) : Decidable p.BracketFree :=
  inferInstanceAs (Decidable (∀ i ∈ p.instructions, i.bracket? = none))

/-- How many instructions from an address on read a line. -/
def requestsFrom (p : Program) (address : ℕ) : ℕ :=
  (p.instructions.drop address).countP Instruction.asks

theorem requestsFrom_succ_le (p : Program) (a : ℕ) : p.requestsFrom (a + 1) ≤ p.requestsFrom a := by
  refine List.Sublist.countP_le ?_
  rw [← List.drop_drop]
  exact List.drop_sublist 1 _

theorem requestsFrom_of_asks {i : Instruction} (hi : p.instruction? a = some i)
    (hasks : i.asks = true) : p.requestsFrom a = p.requestsFrom (a + 1) + 1 := by
  rw [instruction?_eq] at hi
  obtain ⟨hlt, rfl⟩ := List.getElem?_eq_some_iff.1 hi
  rw [requestsFrom, List.drop_eq_getElem_cons hlt, List.countP_cons_of_pos hasks]
  rfl

end Program

/-! ### The instruction at the counter -/

namespace Machine
variable {draws : Draws} {m next : Machine} {wait : Option Medium} {p : Program}

/-- The next step asks for a line. -/
def isAsking (m : Machine) : Bool :=
  m.line?.isNone && (m.program.instruction? m.counter).any Instruction.asks

/-- The next step begins an instruction: it neither asks for a line nor goes on with a
repetition. -/
def isBeginning (m : Machine) : Bool := m.unfinished?.isNone && !m.isAsking

/-- How often the instruction at the counter is to be done: once, unless it is an action with a
count.  Zero if its count can not be used. -/
def repeatCount (m : Machine) : ℕ :=
  match m.program.instruction? m.counter with
  | some (.act s times a) => ((times.resolve? a (m.memory s).cell).map Prod.snd).getD 0
  | _ => 1

/-- The bursts that are left of the instruction at the counter. -/
def burstsLeft (m : Machine) : ℕ :=
  burstCount ((m.unfinished?.map Repetition.left).getD m.repeatCount)

/-- The bursts that are left of an instruction that has begun. -/
def owed (m : Machine) : ℕ := (m.unfinished?.map fun r => burstCount r.left).getD 0

/-- The address of the next instruction to begin. -/
def frontier (m : Machine) : ℕ := if m.unfinished?.isSome then m.counter + 1 else m.counter

/-- How many lines the program can still ask for. -/
def requestsLeft (m : Machine) : ℕ :=
  m.program.requestsFrom (if m.line?.isSome then m.counter + 1 else m.counter)

/-! The views of a machine that got a line. -/

section views
variable (m : Machine) (line : List Char)

@[simp] theorem counter_supplied : (supplied m line).counter = m.counter := rfl

@[simp] theorem queue_supplied : (supplied m line).queue = m.queue := rfl

@[simp] theorem line?_supplied : (supplied m line).line? = some (lineContent line) := rfl

@[simp] theorem unfinished?_supplied : (supplied m line).unfinished? = none := rfl

@[simp] theorem repeatCount_supplied : (supplied m line).repeatCount = m.repeatCount := rfl

end views

theorem line?_eq_none (hp : ∀ line, m.phase ≠ .supplied line) : m.line? = none := by
  unfold line?
  split
  · exact absurd ‹_› (hp _)
  · rfl

theorem unfinished?_eq_none (hp : ∀ r, m.phase ≠ .repeating r) : m.unfinished? = none := by
  unfold unfinished?
  split
  · exact absurd ‹_› (hp _)
  · rfl

theorem unfinished?_of_repeating {r : Repetition} (hp : m.phase = .repeating r) :
    m.unfinished? = some r := by
  simp [unfinished?, hp]

theorem burstCount_pos (left : ℕ) : 0 < burstCount left := by
  unfold burstCount
  omega

theorem signed_le {n : ℤ} (hlow : -2 ^ 63 ≤ n) (hhigh : n < 2 ^ 63) (a : Action) :
    (a.signed n).2 ≤ 2 ^ 63 := by
  unfold Action.signed
  split <;> dsimp only <;> omega

theorem repeatCount_le (m : Machine) : m.repeatCount ≤ 2 ^ 63 := by
  have hmin : Int64.minValue.toInt = -2 ^ 63 := by decide
  have hmax : Int64.maxValue.toInt = 2 ^ 63 - 1 := by decide
  unfold repeatCount
  split
  · rename_i s times a _
    cases hres : times.resolve? a (m.memory s).cell with
    | none => simp
    | some done =>
        show done.2 ≤ 2 ^ 63
        cases times with
        | once =>
            cases hres
            norm_num
        | times n =>
            cases hres
            exact signed_le (Int64.le_toInt n) (Int64.toInt_lt n) a
        | byCell =>
            obtain ⟨k, _, rfl⟩ := Option.map_eq_some_iff.1 hres
            have hk : -2 ^ 63 ≤ Repeat.saturate k ∧ Repeat.saturate k < 2 ^ 63 := by
              unfold Repeat.saturate
              rw [hmin, hmax]
              split
              · omega
              · split <;> omega
            exact signed_le hk.1 hk.2 a
  · norm_num

/-! ### Steps -/

/-- A step waits for a line if and only if it asks for one. -/
theorem Steps.isAsking_eq (hs : Steps draws m next wait) : m.isAsking = wait.isSome := by
  cases hs with
  | input hi hp => simp [isAsking, line?, hp]
  | ask hi hp => simp [isAsking, line?_eq_none hp, hi, Instruction.asks]
  | burst hi | random hi | switchTape hi | output hi | opening hi | closing hi | reserved hi
  | swap hi => simp [isAsking, hi, Instruction.asks]

theorem steps_of_isAsking (draws : Draws) (h : m.isAsking = true) :
    ∃ medium, Steps draws m { m with phase := .waiting } (some medium) := by
  simp only [isAsking, Bool.and_eq_true, Option.isNone_iff_eq_none, Option.any_eq_true] at h
  obtain ⟨hline, i, hi, hasks⟩ := h
  unfold Instruction.asks at hasks
  split at hasks
  · refine ⟨_, .ask hi ?_⟩
    intro line hp
    simp [line?, hp] at hline
  · contradiction

theorem Coherent.isBeginning_of_error {fault : Fault} (h : m.Coherent)
    (hstep : m.step draws = .error fault) : m.isBeginning = true := by
  have hunfinished := unfinished?_eq_none (h.not_repeating_of_error hstep)
  have hasking : m.isAsking = false := by
    rw [← Bool.not_eq_true]
    intro hasking
    obtain ⟨medium, hs⟩ := steps_of_isAsking draws hasking
    rw [hs.step_eq] at hstep
    contradiction
  simp [isBeginning, hunfinished, hasking]

theorem repetition?_left {s : Scope} {times : Repeat} {a : Action} {r : Repetition}
    (hi : m.program.instruction? m.counter = some (.act s times a))
    (hr : m.repetition? s times a = some r) :
    (m.unfinished?.map Repetition.left).getD m.repeatCount = r.left := by
  unfold repetition? at hr
  split at hr
  · rename_i rest hp
    cases hr
    simp [unfinished?, hp]
  · rename_i hp
    obtain ⟨⟨b, n⟩, hb, rfl⟩ := Option.map_eq_some_iff.1 hr
    simp [unfinished?_eq_none hp, repeatCount, hi, hb]

theorem Coherent.line?_of_act (h : m.Coherent) {s : Scope} {times : Repeat} {a : Action}
    (hi : m.program.instruction? m.counter = some (.act s times a)) : m.line? = none := by
  refine line?_eq_none fun line hp => ?_
  obtain ⟨_, _, hi'⟩ := h.supplied line hp
  rw [hi] at hi'
  cases hi'

/-- A step at no bracket completes its instruction, or leaves a burst less of it. -/
theorem Steps.straight (hs : Steps draws m next none) (h : m.Coherent) (hrun : m.isRunning = true)
    (hb : ∀ i, m.program.instruction? m.counter = some i → i.bracket? = none) :
    (next.phase = .ready ∧ next.counter = m.counter + 1) ∨
      ∃ r, next.phase = .repeating r ∧ next.counter = m.counter ∧ m.line? = none ∧
        m.burstsLeft = burstCount r.left + 1 := by
  cases hs with
  | @burst s times a r hi hr =>
      rw [repeatBurst_eq]
      by_cases hmore : Machine.burst < r.left
      · refine .inr ⟨⟨r.action, r.left - Machine.burst, (m.burstResult s r).2⟩, by simp [hmore],
          by simp [hmore], h.line?_of_act hi, ?_⟩
        rw [burstsLeft, repetition?_left hi hr]
        exact burstCount_of_lt hmore
      · exact .inl ⟨by simp [hmore], by simp [hmore]⟩
  | input hi hp => exact .inl ⟨rfl, by simp [advance, goto]⟩
  | opening hi | closing hi => exact absurd (hb _ hi) (by simp [Instruction.bracket?])
  | random hi | switchTape hi | output hi | reserved hi | swap hi =>
      have hready : m.phase = .ready := by
        refine (h.calm hi (by simp) rfl).resolve_left fun hp => ?_
        simp [Machine.isRunning, hp] at hrun
      exact .inl ⟨by simpa [advance, goto, push, swapCells] using hready,
        by simp [advance, goto, push, swapCells]⟩

/-! ### Machines on the way -/

/-- The machine is running the program `p`. -/
structure Underway (p : Program) (m : Machine) : Prop where
  program : m.program = p
  coherent : m.Coherent
  running : m.isRunning = true
  interrupted : m.interrupted = false

theorem underway_load (m : Machine) (p : Program) : (m.load p).Underway p :=
  ⟨rfl, coherent_load m p, rfl, rfl⟩

theorem Underway.setQueue (h : m.Underway p) (queue : List Notice) :
    Underway p { m with queue := queue } :=
  ⟨h.program, h.coherent.congr rfl rfl rfl, h.running, h.interrupted⟩

theorem Underway.traced (h : m.Underway p) (a : ℕ) : (m.traced a).Underway p := by
  rcases traced_eq_or m a with htr | htr
  · rwa [htr]
  · rw [htr]
    exact h.setQueue _

theorem Underway.steps (h : m.Underway p) (hs : Steps draws m next wait) : next.Underway p := by
  obtain ⟨hprogram, hinterrupted, _⟩ := hs.frame
  exact ⟨hprogram.trans h.program, hs.coherent h.coherent, hs.isRunning h.running,
    hinterrupted.trans h.interrupted⟩

theorem Underway.supplied (h : m.Underway p) (hasking : m.isAsking = true) (line : List Char) :
    (supplied m line).Underway p := by
  obtain ⟨medium, hs⟩ := steps_of_isAsking (fun _ => 0) hasking
  have hwaits := h.steps hs
  refine ⟨h.program, ⟨h.coherent.counter, ?_, ?_, ?_⟩, rfl, h.interrupted⟩
  · simp [TwinTape.supplied]
  · exact fun _ _ => hwaits.coherent.waiting rfl
  · simp [TwinTape.supplied]

theorem Underway.active (h : m.Underway p) (hq : m.queue = []) : m.Active :=
  ⟨hq, h.interrupted, h.running⟩

end Machine

/-! ### What a tick can do -/

/-- The ways in which a tick of the machine `m` goes on, with the lines of its host, the event and
the host after it. -/
inductive Goes (p : Program) (m : Machine) :
    List (List Char) → Option Event → Host → Prop
  /-- A notice is told. -/
  | tells {lines : List (List Char)} {n : Notice} {queue : List Notice} :
      m.queue = n :: queue → ¬ (Event.notice n).isFinal →
      Goes p m lines (some (.notice n)) ⟨{ m with queue := queue }, lines⟩
  /-- A line is asked for, and there is one. -/
  | asks {line : List Char} {lines : List (List Char)} {medium : Medium} :
      m.Active → m.isAsking = true →
      Goes p m (line :: lines) (some (.input medium)) ⟨supplied m line, lines⟩
  /-- An instruction is completed. -/
  | completes {lines : List (List Char)} {after : Machine} :
      m.Active → m.isAsking = false → m.counter < p.size → after.Underway p →
      after.phase = .ready → after.counter = m.counter + 1 → Goes p m lines none ⟨after, lines⟩
  /-- A burst is done and does not complete the repetition. -/
  | repeats {lines : List (List Char)} {after : Machine} {r : Repetition} :
      m.Active → m.isAsking = false → m.counter < p.size → after.Underway p →
      after.phase = .repeating r → after.counter = m.counter → m.line? = none →
      m.burstsLeft = burstCount r.left + 1 → Goes p m lines none ⟨after, lines⟩

/-- The ways in which a tick of the machine `m` is the last one. -/
inductive Closes (m : Machine) : List (List Char) → Event → Host → Prop
  /-- A notice is told that ends the run. -/
  | tells {lines : List (List Char)} {n : Notice} {queue : List Notice} :
      m.queue = n :: queue → (Event.notice n).isFinal →
      Closes m lines (.notice n) ⟨{ m with queue := queue }, lines⟩
  /-- The last instruction has been completed, or one fails that has just begun. -/
  | ends {lines : List (List Char)} {e : Event} {after : Machine} :
      m.Active → e.isFinal → after.phase = .idle →
      (m.counter < m.program.size → m.isBeginning = true) → Closes m lines e ⟨after, lines⟩
  /-- A line is asked for, and there is none. -/
  | starves {medium : Medium} :
      m.Active → m.isAsking = true →
      Closes m [] (.input medium) ⟨{ m with phase := .waiting }, []⟩

namespace Machine
variable {draws : Draws} {m : Machine} {p : Program}

theorem tick_of_asks (ha : m.Active) (lines : List (List Char)) {next : Machine} {medium : Medium}
    (hs : Steps draws m next (some medium)) :
    Goes p m lines (some (.input medium)) (Host.receive (.input medium) next lines) ∨
      Closes m lines (.input medium) (Host.receive (.input medium) next lines) := by
  have hasking : m.isAsking = true := hs.isAsking_eq
  cases hs with
  | ask hi hp =>
      cases lines with
      | nil => exact .inr (.starves ha hasking)
      | cons line lines => exact .inl (.asks ha hasking)

theorem Underway.goes_of_steps (h : m.Underway p) (hp : p.BracketFree) (ha : m.Active)
    (lines : List (List Char)) {next : Machine} (hs : Steps draws m next none) :
    Goes p m lines none ⟨next.traced m.counter, lines⟩ := by
  have hasking : m.isAsking = false := hs.isAsking_eq
  have hafter := (h.steps hs).traced m.counter
  have hlt : m.counter < p.size := h.program ▸ hs.lt_size
  have htraced : (next.traced m.counter).phase = next.phase ∧
      (next.traced m.counter).counter = next.counter := by
    rcases traced_eq_or next m.counter with htr | htr <;> rw [htr] <;> exact ⟨rfl, rfl⟩
  have hfree : ∀ i, m.program.instruction? m.counter = some i → i.bracket? = none := by
    intro i hi
    rw [h.program, instruction?_eq] at hi
    exact hp i (List.mem_of_getElem? hi)
  rcases hs.straight h.coherent h.running hfree with
    ⟨hphase, hcounter⟩ | ⟨r, hphase, hcounter, hline, hr⟩
  · exact .completes ha hasking hlt hafter (htraced.1.trans hphase) (htraced.2.trans hcounter)
  · exact .repeats ha hasking hlt hafter (htraced.1.trans hphase) (htraced.2.trans hcounter)
      hline hr

/-- **A tick goes on, or is the last one.** -/
theorem Underway.tick_cases (h : m.Underway p) (hp : p.BracketFree) (draws : Draws)
    (lines : List (List Char)) :
    Goes p m lines (Host.tick draws ⟨m, lines⟩).1 (Host.tick draws ⟨m, lines⟩).2 ∨
      ∃ e h', Host.tick draws ⟨m, lines⟩ = (some e, h') ∧ Closes m lines e h' := by
  cases hq : m.queue with
  | cons n queue =>
      have ht : Host.tick draws ⟨m, lines⟩ =
          (some (.notice n), ⟨{ m with queue := queue }, lines⟩) := by
        simp [Host.tick, tick_of_queue hq, Host.receive]
      rw [ht]
      by_cases hfinal : (Event.notice n).isFinal = true
      · exact .inr ⟨_, _, rfl, .tells hq hfinal⟩
      · exact .inl (.tells hq hfinal)
  | nil =>
      have ha := h.active hq
      unfold Host.tick
      rw [ha.tick_eq]
      by_cases hc : m.program.size ≤ m.counter
      · rw [if_pos hc]
        exact .inr ⟨_, _, rfl, .ends ha rfl rfl fun hlt => absurd hlt (by omega)⟩
      · rw [if_neg hc]
        cases hstep : m.step draws with
        | error fault =>
            exact .inr ⟨_, _, rfl, .ends ha rfl rfl fun _ =>
              h.coherent.isBeginning_of_error hstep⟩
        | ok result =>
            have hs := step_eq_ok_iff.1 hstep
            obtain ⟨next, _ | medium⟩ := result
            · exact .inl (h.goes_of_steps hp ha lines hs)
            · exact (tick_of_asks ha lines hs).imp id fun hcloses => ⟨_, _, rfl, hcloses⟩

/-! ### Nearer to the end -/

/-- What is left before the run ends: instructions, then bursts of the one at the counter, then
notices to be told and a line to be asked for. -/
def distance (m : Machine) : ℕ ×ₗ ℕ ×ₗ ℕ :=
  toLex (m.program.size - m.counter,
    toLex (m.burstsLeft, m.queue.length + if m.line?.isSome then 0 else 1))

theorem line?_of_isAsking (hasking : m.isAsking = true) : m.line? = none := by
  simp only [isAsking, Bool.and_eq_true, Option.isNone_iff_eq_none] at hasking
  exact hasking.1

theorem unfinished?_of_isAsking (h : m.Coherent) (hasking : m.isAsking = true) :
    m.unfinished? = none := by
  refine unfinished?_eq_none fun r hp => ?_
  obtain ⟨⟨i, hi, haccepts, _⟩, _⟩ := h.repeating r hp
  cases i with
  | act => simp [isAsking, hi, Instruction.asks] at hasking
  | perform => exact absurd haccepts Bool.false_ne_true
  | swap => exact absurd haccepts Bool.false_ne_true

end Machine

variable {m : Machine} {p : Program} {lines : List (List Char)} {o : Option Event} {e : Event}
  {h h' : Host}

theorem Goes.underway (hg : Goes p m lines o h') (hm : m.Underway p) : h'.machine.Underway p := by
  cases hg with
  | tells => exact hm.setQueue _
  | asks _ hasking => exact hm.supplied hasking _
  | completes _ _ _ hafter => exact hafter
  | repeats _ _ _ hafter => exact hafter

theorem Goes.not_isFinal (hg : Goes p m lines (some e) h') : ¬ e.isFinal := by
  cases hg with
  | tells _ hn => exact hn
  | asks => exact Bool.false_ne_true

/-- **A tick that goes on comes nearer to the end.** -/
theorem Goes.distance_lt (hg : Goes p m lines o h') (hm : m.Underway p) :
    h'.machine.distance < m.distance := by
  cases hg with
  | tells hq _ =>
      refine Prod.Lex.toLex_lt_toLex.2 (.inr ⟨rfl, Prod.Lex.toLex_lt_toLex.2 (.inr ⟨rfl, ?_⟩)⟩)
      exact Nat.add_lt_add_right (by simp [hq]) _
  | asks _ hasking =>
      have hline := Machine.line?_of_isAsking hasking
      have hunfinished := Machine.unfinished?_of_isAsking hm.coherent hasking
      refine Prod.Lex.toLex_lt_toLex.2 (.inr ⟨rfl, Prod.Lex.toLex_lt_toLex.2 (.inr ⟨?_, ?_⟩)⟩)
      · simp [Machine.burstsLeft, hunfinished]
      · simp [hline]
  | completes _ _ hlt hafter _ hcounter =>
      refine Prod.Lex.toLex_lt_toLex.2 (.inl ?_)
      simp only [hafter.program, hm.program, hcounter]
      omega
  | @repeats _ after r _ _ _ hafter hphase hcounter _ hr =>
      have hleft : after.burstsLeft = burstCount r.left := by
        simp [Machine.burstsLeft, Machine.unfinished?_of_repeating hphase]
      refine Prod.Lex.toLex_lt_toLex.2 (.inr ⟨?_, Prod.Lex.toLex_lt_toLex.2 (.inl ?_)⟩)
      · simp only [hafter.program, hm.program, hcounter]
      · simp only [hleft, hr, Nat.lt_succ_self]

/-! ### Lines -/

/-- There is a line for each that the program can still ask for. -/
def Host.Stocked (h : Host) : Prop := h.machine.requestsLeft ≤ h.lines.length

namespace Machine

theorem requestsFrom_of_isAsking (hasking : m.isAsking = true) :
    m.program.requestsFrom m.counter = m.program.requestsFrom (m.counter + 1) + 1 := by
  simp only [isAsking, Bool.and_eq_true, Option.any_eq_true] at hasking
  obtain ⟨_, i, hi, hasks⟩ := hasking
  exact Program.requestsFrom_of_asks hi hasks

theorem requestsLeft_of_isAsking (hasking : m.isAsking = true) :
    m.requestsLeft = m.program.requestsFrom m.counter := by
  simp [requestsLeft, line?_of_isAsking hasking]

theorem requestsFrom_le_requestsLeft (m : Machine) :
    m.program.requestsFrom (m.counter + 1) ≤ m.requestsLeft := by
  unfold requestsLeft
  split
  · exact le_rfl
  · exact Program.requestsFrom_succ_le _ _

end Machine

/-- A host that has enough lines keeps enough. -/
theorem Goes.stocked (hg : Goes p m lines o h') (hm : m.Underway p)
    (hs : (⟨m, lines⟩ : Host).Stocked) : h'.Stocked := by
  unfold Host.Stocked at hs ⊢
  cases hg with
  | tells => exact hs
  | asks _ hasking =>
      have hleft := Machine.requestsFrom_of_isAsking hasking
      rw [Machine.requestsLeft_of_isAsking hasking, hleft] at hs
      exact Nat.le_of_succ_le_succ hs
  | @completes _ after _ _ _ hafter hphase hcounter =>
      have hnone : after.line? = none := Machine.line?_eq_none (by simp [hphase])
      have hleft : after.requestsLeft = m.program.requestsFrom (m.counter + 1) := by
        simp [Machine.requestsLeft, hnone, hcounter, hafter.program, hm.program]
      exact (hleft.le.trans m.requestsFrom_le_requestsLeft).trans hs
  | @repeats _ after r _ _ _ hafter hphase hcounter hline _ =>
      have hnone : after.line? = none := Machine.line?_eq_none (by simp [hphase])
      have hleft : after.requestsLeft = m.requestsLeft := by
        simp [Machine.requestsLeft, hnone, hline, hcounter, hafter.program, hm.program]
      exact hleft.le.trans hs

theorem Closes.isFinal_of_stocked (hc : Closes m lines e h') (hs : (⟨m, lines⟩ : Host).Stocked) :
    e.isFinal := by
  cases hc with
  | tells _ hn => exact hn
  | ends _ he => exact he
  | starves _ hasking =>
      unfold Host.Stocked at hs
      rw [Machine.requestsLeft_of_isAsking hasking, Machine.requestsFrom_of_isAsking hasking] at hs
      exact absurd hs (by simp)

end TwinTape
