import TwinTape.Proofs.Courses
import TwinTape.Proofs.Walks

/-! # Bursts do what plain repetition does

An action with a count is done in bursts, one per step, and between two bursts the host may get a
warning or the end of a budget.  None of this matters for the result: the memory is the iterate of
one action, the count that was found at the start being kept; the host is warned once if the
cursor walks off the left end, which is if the count exceeds the index of the cursor; and there is
one report at the end if reports are wanted.

The induction is on what is left of the repetition (`proceeds_repetition`), and a drive comes by
the hosts that ticks lead to, whatever its budgets are (`bursts_refine_repetition`). -/

namespace TwinTape

/-! ### Repeated actions -/

namespace Memory

theorem actTimes_fst (m : Memory) (a : Action) (n : ℕ) (fell : Bool) :
    (m.actTimes a n fell).1 = (fun m => act m a)^[n] m := by
  induction n generalizing m fell with
  | zero => simp
  | succ n ih => rw [actTimes_succ, ih, Function.iterate_succ_apply]

theorem activeTape_act (m : Memory) (a : Action) :
    (m.act a).activeTape = m.activeTape.act m.otherCell a := by
  simp [act]

/-- The cursor walks off the left end in `n` moves if `n` exceeds its index. -/
theorem actTimes_snd (m : Memory) (a : Action) (n : ℕ) (fell : Bool) :
    (m.actTimes a n fell).2 = (fell || decide (a = .moveLeft ∧ m.activeTape.cursor < n)) := by
  induction n generalizing m fell with
  | zero => simp
  | succ n ih =>
      rw [actTimes_succ, ih, activeTape_act, Bool.or_assoc]
      congr 1
      by_cases ha : a = .moveLeft
      · subst ha
        have hleft := Tape.isLeftmost_iff m.activeTape
        rw [Bool.eq_iff_iff]
        simp only [fallsLeft, Tape.fallsLeft, Tape.act, Tape.cursor_left, BEq.rfl, Bool.true_and,
          Bool.or_eq_true, hleft, decide_eq_true_eq, true_and]
        omega
      · simp [fallsLeft, Tape.fallsLeft, ha]

end Memory

/-! ### Ticks of one instruction -/

variable {draws : Draws} {m next : Machine} {s : Scope} {times : Repeat} {a : Action}
  {r : Repetition}

/-- A row of ticks from `m` to `m'`, with the machines that take steps and the notices. -/
def Proceeds (draws : Draws) (lines : List (List Char)) (m : Machine) (steps : List Machine)
    (notices : List Notice) (m' : Machine) : Prop :=
  ∃ k ms, Host.tickCourse draws k ⟨m, lines⟩ = (ms, ⟨m', lines⟩) ∧ Moment.steps ms = steps ∧
    (Moment.events ms).map Prod.fst = notices.map .notice

theorem Proceeds.trans {lines : List (List Char)} {m₁ m₂ : Machine} {steps steps' : List Machine}
    {notices notices' : List Notice} (hg : Proceeds draws lines m steps notices m₁)
    (hg' : Proceeds draws lines m₁ steps' notices' m₂) :
    Proceeds draws lines m (steps ++ steps') (notices ++ notices') m₂ := by
  obtain ⟨k, ms, hms, rfl, hn⟩ := hg
  obtain ⟨k', ms', hms', rfl, hn'⟩ := hg'
  refine ⟨k + k', ms ++ ms', ?_, Moment.steps_append ms ms', ?_⟩
  · rw [Host.tickCourse_add, hms, hms']
  · rw [Moment.events_append, List.map_append, hn, hn', List.map_append]

theorem proceeds_tick {lines : List (List Char)} {m₁ : Machine} (told : Option Notice)
    (ht : Host.tick draws ⟨m, lines⟩ = (told.map .notice, ⟨m₁, lines⟩)) :
    Proceeds draws lines m (if m.isStepping then [m] else []) told.toList m₁ := by
  refine ⟨1, Host.tickMoments draws ⟨m, lines⟩, ?_, ?_, ?_⟩
  · rw [Host.tickCourse_one, ht]
  · cases told <;> by_cases hs : m.isStepping = true <;> simp [Host.tickMoments, hs, ht]
  · cases told <;> by_cases hs : m.isStepping = true <;> simp [Host.tickMoments, hs, ht]

theorem proceeds_queue (draws : Draws) (lines : List (List Char)) (m : Machine) :
    Proceeds draws lines m [] m.queue { m with queue := [] } := by
  induction hq : m.queue generalizing m with
  | nil =>
      have hm : { m with queue := [] } = m := by rw [← hq]
      rw [hm]
      exact ⟨0, [], rfl, rfl, rfl⟩
  | cons n queue ih =>
      have ht : Host.tick draws ⟨m, lines⟩ =
          (some (.notice n), ⟨{ m with queue := queue }, lines⟩) := by
        simp [Host.tick, Machine.tick_of_queue hq, Host.receive]
      have hs : m.isStepping = false := by simp [Machine.isStepping, hq]
      have hfirst : Proceeds draws lines m [] [n] { m with queue := queue } := by
        simpa [hs] using proceeds_tick (some n) ht
      exact hfirst.trans (ih { m with queue := queue } rfl)

/-- One step, and all that it leaves to be told. -/
theorem proceeds_of_steps (lines : List (List Char)) (ha : m.Active)
    (hc : m.counter < m.program.size) (hs : m.Steps draws next none) :
    Proceeds draws lines m [m] (next.traced m.counter).queue { next with queue := [] } := by
  have ht : Host.tick draws ⟨m, lines⟩ = (none, ⟨next.traced m.counter, lines⟩) := by
    have : m.tick draws = (none, next.traced m.counter) := by
      rw [ha.tick_eq, if_neg (by omega), hs.step_eq]
    simp [Host.tick, this]
  have hstepping : m.isStepping = true := Machine.isStepping_iff.2 ⟨ha, hc⟩
  have hfirst : Proceeds draws lines m [m] [] (next.traced m.counter) := by
    simpa [hstepping] using proceeds_tick none ht
  have hsame : { next.traced m.counter with queue := [] } = { next with queue := [] } := by
    cases Machine.traced_eq_or next m.counter with
    | inl h => rw [h]
    | inr h => rw [h]; rfl
  have hall := hfirst.trans (proceeds_queue draws lines (next.traced m.counter))
  rwa [hsame] at hall

/-! ### All bursts -/

/-- The report of an instruction, if such reports are wanted. -/
def reportOf (tracing : Bool) (address : ℕ) : List Notice :=
  if tracing then [.trace address] else []

/-- The bursts that a count takes: the last one may be short, and a count of zero takes one too. -/
def burstCount (left : ℕ) : ℕ := max 1 ((left + (Machine.burst - 1)) / Machine.burst)

theorem burstCount_of_lt {left : ℕ} (h : Machine.burst < left) :
    burstCount left = burstCount (left - Machine.burst) + 1 := by
  unfold burstCount
  unfold Machine.burst at h ⊢
  omega

theorem burstCount_of_le {left : ℕ} (h : ¬ Machine.burst < left) : burstCount left = 1 := by
  unfold burstCount
  unfold Machine.burst at h ⊢
  omega

/-- Bursts one after the other do what the repetition does at once, and tell the same. -/
theorem proceeds_repetition (draws : Draws) (lines : List (List Char)) (ha : m.Active)
    (hi : m.program.instruction? m.counter = some (.act s times a))
    (hr : m.repetition? s times a = some r) :
    ∃ steps, Proceeds draws lines m steps
        (warningFor r.warned ((m.memory s).actTimes r.action r.left r.warned).2 ++
          reportOf m.tracing m.counter)
        (repeated m s r) ∧
      steps.length = burstCount r.left ∧ ∀ x ∈ steps, x.counter = m.counter := by
  induction hn : r.left using Nat.strong_induction_on generalizing m r with
  | _ left ih =>
      subst hn
      have hlt := Program.lt_size_of_instruction? hi
      have hfirst := proceeds_of_steps lines ha hlt (Machine.Steps.burst hi hr : m.Steps draws _ _)
      by_cases hb : Machine.burst < r.left
      · have hq : ((m.repeatBurst s r).traced m.counter).queue =
            warningFor r.warned (m.burstResult s r).2 := by
          rw [Machine.repeatBurst_eq, ha.queue]
          simp [Machine.traced, hb, warningFor]
        rw [hq, repeatBurst_of_lt ha.queue hb] at hfirst
        have hpos : 0 < Machine.burst := by decide
        have hact : (burstMore m s r).Active :=
          ⟨by simp [burstMore, ha.queue], by simp [burstMore, ha.interrupted], rfl⟩
        obtain ⟨steps, hrest, hlength, hcounter⟩ := ih (r.left - Machine.burst) (by omega) hact
          (by simpa [burstMore] using hi) rfl rfl
        have hmem : (burstMore m s r).memory s = (m.burstResult s r).1 := by
          cases s <;> rfl
        have hsame : (burstMore m s r).counter = m.counter := by simp [burstMore]
        have htracing : (burstMore m s r).tracing = m.tracing := by simp [burstMore]
        rw [repeated_burstMore hb, hmem, actTimes_burst hb, hsame, htracing] at hrest
        have hwarn : warningFor r.warned (m.burstResult s r).2 ++ warningFor (m.burstResult s r).2
            ((m.memory s).actTimes r.action r.left r.warned).2 =
            warningFor r.warned ((m.memory s).actTimes r.action r.left r.warned).2 := by
          refine warningFor_append (fun h => actTimes_mono _ _ _ h) (fun h => ?_)
          rw [← actTimes_burst hb]
          exact actTimes_mono _ _ _ h
        refine ⟨m :: steps, ?_, ?_, ?_⟩
        · rw [← hwarn, List.append_assoc]
          exact hfirst.trans hrest
        · rw [List.length_cons, hlength, burstCount_of_lt hb]
        · rw [hsame] at hcounter
          exact List.forall_mem_cons.2 ⟨rfl, hcounter⟩
      · have hres : m.burstResult s r = (m.memory s).actTimes r.action r.left r.warned := by
          rw [Machine.burstResult, Nat.min_eq_left (by omega)]
        have hq : ((m.repeatBurst s r).traced m.counter).queue =
            warningFor r.warned (m.burstResult s r).2 ++ reportOf m.tracing m.counter := by
          rw [Machine.repeatBurst_eq, ha.queue]
          cases htr : m.tracing <;> simp [Machine.traced, hb, warningFor, reportOf, htr,
            Machine.push]
        rw [hq, repeatBurst_of_le ha.queue hb, hres] at hfirst
        exact ⟨[m], hfirst, (burstCount_of_le hb).symm, by simp⟩

theorem memory_repeated_same (m : Machine) (s : Scope) (r : Repetition) :
    (repeated m s r).memory s = ((m.memory s).actTimes r.action r.left r.warned).1 := by
  cases s <;> rfl

theorem memory_repeated_ne (m : Machine) {s t : Scope} (r : Repetition) (h : t ≠ s) :
    (repeated m s r).memory t = m.memory t := by
  cases s <;> cases t <;> first | rfl | exact absurd rfl h

/-- **Bursts do what plain repetition does.**  A machine is about to execute an action that is to
be done `n` times.  Then every drive without empty budgets takes the steps of that many bursts at
the counter, lets the host hear the warning and the report, if they are due, and comes by a
machine whose memory is the iterate of the action. -/
theorem bursts_refine_repetition {b : Action} {n : ℕ} (ha : m.Active)
    (hnone : m.unfinished? = none)
    (hi : m.program.instruction? m.counter = some (.act s times a))
    (hres : times.resolve? a (m.memory s).cell = some (b, n)) (draws : Draws)
    (lines : List (List Char)) {budgets : ℕ → ℕ} (hb : ∀ i, 0 < budgets i) :
    ∃ ms budgets' after, Host.ComesBy draws budgets ⟨m, lines⟩ ms budgets' ⟨after, lines⟩ ∧
      (Moment.steps ms).length = max 1 ((n + 1023) / 1024) ∧
      (∀ x ∈ Moment.steps ms, x.counter = m.counter) ∧
      (Moment.events ms).map Prod.fst =
        (if b = .moveLeft ∧ (m.memory s).activeTape.cursor < n then
          [.notice (.warning .tooLeft)] else []) ++
        (if m.tracing then [.notice (.trace m.counter)] else []) ∧
      after.counter = m.counter + 1 ∧ after.unfinished? = none ∧ after.Active ∧
      after.memory s = (fun memory => memory.act b)^[n] (m.memory s) ∧
      (∀ t, t ≠ s → after.memory t = m.memory t) ∧
      after.program = m.program ∧ after.entered = m.entered := by
  have hr : m.repetition? s times a = some ⟨b, n, false⟩ := by
    unfold Machine.repetition?
    split
    · rename_i rest hphase
      simp [Machine.unfinished?, hphase] at hnone
    · simp [hres]
  obtain ⟨_, ⟨k, ms, hms, rfl, hevents⟩, hlength, hcounter⟩ :=
    proceeds_repetition draws lines ha hi hr
  have hlater : ∀ i, 0 < budgets (i + 1) := fun i => hb (i + 1)
  obtain ⟨budgets', hcomes⟩ := Host.comesBy_ticks draws k ⟨m, lines⟩ hlater
  rw [hms] at hcomes
  refine ⟨ms, budgets', _, hcomes, hlength, hcounter, ?_, ?_, rfl, ?_, ?_, ?_, ?_, ?_⟩
  · rw [hevents, Memory.actTimes_snd, List.map_append]
    congr 1
    · by_cases hfell : b = .moveLeft ∧ (m.memory s).activeTape.cursor < n <;>
        simp [warningFor, hfell]
    · cases htr : m.tracing <;> simp [reportOf]
  · simp [repeated]
  · exact ⟨by simp [repeated, ha.queue], by simp [repeated, ha.interrupted], rfl⟩
  · rw [memory_repeated_same, Memory.actTimes_fst]
  · intro t ht
    exact memory_repeated_ne m _ ht
  · simp [repeated]
  · simp [repeated]

/-- A traced machine that is to go 3000 cells to the left, which its program writes as a negative
count of moves to the right. -/
def farLeft : Machine :=
  (Machine.load {} (.ofCode "demo" [⟨.act .local (.times (-3000)) .moveRight, ⟨1, 1⟩⟩])).setTracing
    true

/-- Three bursts, one warning and one report. -/
theorem bursts_refine_repetition_farLeft :
    ∃ ms budgets' after, Host.ComesBy (fun _ => 0.5) (fun i => i + 1) ⟨farLeft, []⟩ ms budgets'
        ⟨after, []⟩ ∧ (Moment.steps ms).length = 3 ∧
      (Moment.events ms).map Prod.fst = [.notice (.warning .tooLeft), .notice (.trace 0)] ∧
      after.counter = 1 ∧ after.local = (fun memory => memory.act .moveLeft)^[3000] {} := by
  have hres : (Repeat.times (-3000)).resolve? .moveRight (farLeft.memory .local).cell =
      some (.moveLeft, 3000) := rfl
  obtain ⟨ms, budgets', after, hcomes, hlength, _, hevents, hcounter, _, _, hmemory, _⟩ :=
    bursts_refine_repetition ⟨rfl, rfl, rfl⟩ rfl rfl hres (fun _ => 0.5) []
      (fun i => Nat.succ_pos i)
  exact ⟨ms, budgets', after, hcomes, hlength, hevents, hcounter, hmemory⟩

end TwinTape
