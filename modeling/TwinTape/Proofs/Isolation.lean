import TwinTape.Proofs.Congruence
import TwinTape.Proofs.Structured
import TwinTape.Proofs.Ticks

/-! # Memories that do not meet

An instruction of one scope neither reads nor writes the memory of the other; the swap is the only
exception.  So a machine may be put into another session, in which the other memory is any one and
more random numbers have been drawn (`Machine.elsewhere`), and it takes the same step there
(`step_elsewhere`).  If no instruction of a program is of the other scope, this holds of every drive
(`drive_elsewhere`).

That the other memory is never written follows: a machine is itself in its own session
(`elsewhere_self`), so what a step leaves has the other memory that was there before. -/

namespace TwinTape

/-- The draws that are left after the first `k`. -/
def Draws.later (draws : Draws) (k : ℕ) : Draws := fun i => draws (i + k)

@[simp] theorem Draws.later_zero (draws : Draws) : draws.later 0 = draws := rfl

/-- The instruction has nothing to do with the memory of the scope `t`. -/
def Instruction.Avoids (t : Scope) (i : Instruction) : Prop := i.scope ≠ t ∧ i ≠ .swap

namespace Machine
variable {m : Machine} {s t : Scope}

/-- The machine in another session: the memory of the scope `t` is `other`, and `k` more random
numbers have been drawn. -/
def elsewhere (t : Scope) (other : Memory) (k : ℕ) (m : Machine) : Machine :=
  { m.setMemory t other with drawn := m.drawn + k }

section fields
variable (m : Machine) (s t : Scope) (other : Memory) (k : ℕ)

@[simp] theorem program_elsewhere : (m.elsewhere t other k).program = m.program := by
  simp [elsewhere]

@[simp] theorem counter_elsewhere : (m.elsewhere t other k).counter = m.counter := by
  simp [elsewhere]

@[simp] theorem phase_elsewhere : (m.elsewhere t other k).phase = m.phase := by
  simp [elsewhere]

@[simp] theorem interrupted_elsewhere :
    (m.elsewhere t other k).interrupted = m.interrupted := by
  simp [elsewhere]

@[simp] theorem tracing_elsewhere : (m.elsewhere t other k).tracing = m.tracing := by
  simp [elsewhere]

@[simp] theorem queue_elsewhere : (m.elsewhere t other k).queue = m.queue := by
  simp [elsewhere]

@[simp] theorem isRunning_elsewhere : (m.elsewhere t other k).isRunning = m.isRunning := by
  simp [isRunning]

@[simp] theorem memory_elsewhere_same : (m.elsewhere t other k).memory t = other := by
  cases t <;> rfl

theorem memory_elsewhere_ne (h : s ≠ t) : (m.elsewhere t other k).memory s = m.memory s := by
  cases s <;> cases t <;> first | rfl | exact absurd rfl h

theorem elsewhere_self : m.elsewhere t (m.memory t) 0 = m := by
  cases t <;> rfl

theorem setMemory_elsewhere (memory : Memory) (h : s ≠ t) :
    (m.elsewhere t other k).setMemory s memory = (m.setMemory s memory).elsewhere t other k := by
  cases s <;> cases t <;> first | rfl | exact absurd rfl h

end fields

/-! ### Steps -/

theorem congruence_elsewhere (draws : Draws) (t : Scope) (other : Memory) (k : ℕ) :
    Congruence (draws.later k) draws (· ≠ t) 0 (fun m m' => m' = m.elsewhere t other k) where
  phase := by rintro m _ rfl; exact phase_elsewhere ..
  counter := by rintro m _ rfl; exact counter_elsewhere ..
  memory := by rintro m _ s rfl h; exact memory_elsewhere_ne _ _ _ _ _ h
  draw := by rintro m _ rfl; rfl
  entered := by rintro m _ s rfl -; cases t <;> rfl
  setPhase := by rintro m _ rfl p; cases t <;> rfl
  goto := by rintro m _ rfl a; cases t <;> rfl
  setMemory := by rintro m _ s rfl h x; exact setMemory_elsewhere _ _ _ _ _ x h
  setDrawn := by rintro m _ rfl; cases t <;> simp [elsewhere, setMemory, Nat.add_right_comm]
  push := by rintro m _ rfl n -; cases t <;> rfl
  mark := by rintro m _ rfl; cases t <;> rfl
  unmark := by rintro m _ rfl; cases t <;> rfl

section steps
variable (m : Machine) (other : Memory) (k : ℕ)

/-- An instruction that avoids a scope takes the same step whatever the memory of the scope is. -/
theorem step_elsewhere (draws : Draws)
    (h : ∀ i, m.program.instruction? m.counter = some i → i.Avoids t) :
    (m.elsewhere t other k).step draws =
      mapResult (elsewhere t other k) (m.step (draws.later k)) := by
  refine ((congruence_elsewhere draws t other k).step rfl (program_elsewhere ..) ?_).eq_mapResult
  intro i hi
  obtain ⟨hscope, hswap⟩ := h i hi
  exact ⟨hscope, fun he => absurd he hswap⟩

theorem enter_elsewhere (t : Scope) (line : List Char) :
    ((m.elsewhere t other k).enter line).2 = (m.enter line).2.elsewhere t other k :=
  ((congruence_elsewhere (fun _ => 0) t other k).enter rfl line).2

end steps

/-! ### Ticks and calls -/

section ticks
variable (other : Memory) (k : ℕ)

theorem traced_elsewhere (m : Machine) (t : Scope) (a : ℕ) :
    (m.elsewhere t other k).traced a = (m.traced a).elsewhere t other k := by
  unfold traced
  rw [phase_elsewhere, tracing_elsewhere]
  split
  · rfl
  · split
    · cases t <;> rfl
    · rfl

theorem active_elsewhere (m : Machine) (t : Scope) :
    (m.elsewhere t other k).Active ↔ m.Active := by
  constructor
  · rintro ⟨hq, hi, hr⟩
    exact ⟨by simpa using hq, by simpa using hi, by simpa using hr⟩
  · rintro ⟨hq, hi, hr⟩
    exact ⟨by simpa using hq, by simpa using hi, by simpa using hr⟩

theorem tick_elsewhere (draws : Draws)
    (h : ∀ i, m.program.instruction? m.counter = some i → i.Avoids t) :
    (m.elsewhere t other k).tick draws =
      ((m.tick (draws.later k)).1, (m.tick (draws.later k)).2.elsewhere t other k) := by
  by_cases ha : m.Active
  · rw [((active_elsewhere other k m t).2 ha).tick_eq, ha.tick_eq,
      step_elsewhere m other k draws h, program_elsewhere, counter_elsewhere]
    by_cases hc : m.program.size ≤ m.counter
    · rw [if_pos hc, if_pos hc]
      cases t <;> rfl
    · rw [if_neg hc, if_neg hc]
      cases m.step (draws.later k) with
      | error fault => cases t <;> rfl
      | ok p =>
          obtain ⟨next, _ | medium⟩ := p
          · simp only [mapResult, Except.map, traced_elsewhere]
          · rfl
  · have hqueue := queue_elsewhere m t other k
    have hinterrupted := interrupted_elsewhere m t other k
    rcases cases_of_not_active ha with ⟨n, queue, hq⟩ | ⟨hq, hi⟩ | ⟨hq, hi, hr⟩
    · rw [tick_of_queue hq, tick_of_queue (hqueue.trans hq)]
      cases t <;> rfl
    · rw [tick_of_interrupted hq hi,
        tick_of_interrupted (hqueue.trans hq) (hinterrupted.trans hi)]
      cases t <;> rfl
    · rw [tick_of_idle hq hi hr, tick_of_idle (hqueue.trans hq) (hinterrupted.trans hi)
        ((isRunning_elsewhere m t other k).trans hr)]

theorem program_tick (draws : Draws) (m : Machine) : (m.tick draws).2.program = m.program := by
  unfold tick
  split
  · rfl
  · split
    · rfl
    · split
      · split
        · rfl
        · split
          · rfl
          · rename_i next medium hs
            exact (step_eq_ok_iff.1 hs).frame.1
          · rename_i next hs
            have hprogram := (step_eq_ok_iff.1 hs).frame.1
            rcases traced_eq_or next m.counter with htr | htr
            · rw [htr, hprogram]
            · rw [htr]
              exact hprogram
      · rfl

/-- A program without instructions of a scope gets the same events in every session. -/
theorem execute_elsewhere (draws : Draws) (budget : ℕ)
    (h : ∀ i ∈ m.program.instructions, i.Avoids t) :
    (m.elsewhere t other k).execute draws budget =
      ((m.execute (draws.later k) budget).1,
        (m.execute (draws.later k) budget).2.elsewhere t other k) := by
  have htick : ∀ {m : Machine}, (∀ i ∈ m.program.instructions, i.Avoids t) →
      (m.elsewhere t other k).tick draws =
        ((m.tick (draws.later k)).1, (m.tick (draws.later k)).2.elsewhere t other k) := by
    intro m h
    refine tick_elsewhere other k draws fun i hi => h i ?_
    rw [instruction?_eq] at hi
    exact List.mem_of_getElem? hi
  induction budget generalizing m with
  | zero =>
      by_cases ha : m.Active
      · rw [ha.execute_zero, ((active_elsewhere other k m t).2 ha).execute_zero]
      · have ha' : ¬ (m.elsewhere t other k).Active := by rwa [active_elsewhere]
        obtain ⟨e, ht, _⟩ := execute_of_not_active (draws.later k) ha 0
        have ht' := htick h
        rw [ht] at ht'
        rw [execute_of_tick ha ht, execute_of_tick ha' ht']
  | succ budget ih =>
      rw [execute_succ, execute_succ, htick h]
      rcases ht : m.tick (draws.later k) with ⟨_ | e, next⟩
      · have hprogram := program_tick (draws.later k) m
        rw [ht] at hprogram
        refine ih ?_
        rw [hprogram]
        exact h
      · rfl

theorem program_execute (draws : Draws) (budget : ℕ) (m : Machine) :
    (m.execute draws budget).2.program = m.program := by
  induction budget generalizing m with
  | zero =>
      by_cases ha : m.Active
      · rw [ha.execute_zero]
      · obtain ⟨e, ht, _⟩ := execute_of_not_active draws ha 0
        have hprogram := program_tick draws m
        rwa [ht] at hprogram
  | succ budget ih =>
      have hprogram := program_tick draws m
      rw [execute_succ]
      rcases ht : m.tick draws with ⟨_ | e, next⟩
      · rw [ht] at hprogram
        exact (ih next).trans hprogram
      · rw [ht] at hprogram
        exact hprogram

theorem program_enter (m : Machine) (line : List Char) :
    (m.enter line).2.program = m.program := by
  unfold enter
  split <;> rfl

end ticks

end Machine

/-! ### Drives -/

namespace Host
variable {h : Host} {t : Scope} (other : Memory) (k : ℕ)

/-- The host of the machine in another session. -/
def elsewhere (t : Scope) (other : Memory) (k : ℕ) (h : Host) : Host :=
  ⟨h.machine.elsewhere t other k, h.lines⟩

theorem receive_elsewhere (e : Event) (m : Machine) (lines : List (List Char)) :
    receive e (m.elsewhere t other k) lines = (receive e m lines).elsewhere t other k := by
  unfold receive
  split
  · rw [Machine.enter_elsewhere]
    rfl
  · rfl

theorem program_call (draws : Draws) (budget : ℕ) (h : Host) :
    (h.call draws budget).2.machine.program = h.machine.program := by
  have hprogram := Machine.program_execute draws budget h.machine
  unfold call receive
  dsimp only
  split
  · rw [Machine.program_enter, hprogram]
  · exact hprogram

/-- A program without instructions of a scope is driven in the same way in every session. -/
theorem drive_elsewhere (draws : Draws) (budgets : ℕ → ℕ) (n : ℕ)
    (havoids : ∀ i ∈ h.machine.program.instructions, i.Avoids t) :
    (h.elsewhere t other k).drive draws budgets n =
      ((h.drive (draws.later k) budgets n).1,
        (h.drive (draws.later k) budgets n).2.elsewhere t other k) := by
  induction n generalizing h budgets with
  | zero => rfl
  | succ n ih =>
      have hcall : (h.elsewhere t other k).call draws (budgets 0) =
          ((h.call (draws.later k) (budgets 0)).1,
            (h.call (draws.later k) (budgets 0)).2.elsewhere t other k) := by
        simp only [call, elsewhere, Machine.execute_elsewhere other k draws (budgets 0) havoids]
        rw [receive_elsewhere]
        rfl
      have hprogram := program_call (draws.later k) (budgets 0) h
      simp only [drive, hcall]
      rw [ih]
      rw [hprogram]
      exact havoids

/-- The memory of a scope stays as it is if the program has no instruction of the scope. -/
theorem memory_drive (draws : Draws) (budgets : ℕ → ℕ) (n : ℕ)
    (havoids : ∀ i ∈ h.machine.program.instructions, i.Avoids t) :
    (h.drive draws budgets n).2.machine.memory t = h.machine.memory t := by
  have hself : h.elsewhere t (h.machine.memory t) 0 = h := by
    rw [elsewhere, Machine.elsewhere_self]
  have hdrive := drive_elsewhere (h.machine.memory t) 0 draws budgets n havoids
  rw [hself, Draws.later_zero] at hdrive
  rw [hdrive]
  exact Machine.memory_elsewhere_same ..

end Host

/-- Two drives that cannot be told apart without a look at the global memory. -/
structure LocallyAlike (run run' : List Event × Host) : Prop where
  events : run'.1 = run.1
  counter : run'.2.machine.counter = run.2.machine.counter
  waiting : run'.2.machine.isWaiting = run.2.machine.isWaiting
  running : run'.2.machine.isRunning = run.2.machine.isRunning
  «local» : run'.2.machine.local = run.2.machine.local
  entered : run'.2.machine.entered = run.2.machine.entered
  lines : run'.2.lines = run.2.lines

section alike
variable {run run₁ run₂ : List Event × Host}

theorem LocallyAlike.symm (h : LocallyAlike run run₁) : LocallyAlike run₁ run where
  events := h.events.symm
  counter := h.counter.symm
  waiting := h.waiting.symm
  running := h.running.symm
  «local» := h.local.symm
  entered := h.entered.symm
  lines := h.lines.symm

theorem LocallyAlike.trans (h : LocallyAlike run run₁) (h' : LocallyAlike run₁ run₂) :
    LocallyAlike run run₂ where
  events := h'.events.trans h.events
  counter := h'.counter.trans h.counter
  waiting := h'.waiting.trans h.waiting
  running := h'.running.trans h.running
  «local» := h'.local.trans h.local
  entered := h'.entered.trans h.entered
  lines := h'.lines.trans h.lines

end alike

namespace Machine

theorem load_eq_elsewhere (m : Machine) (p : Program) :
    m.load p = (load { tracing := m.tracing } p).elsewhere .global m.global m.drawn := by
  simp [elsewhere, setMemory, load]

/-- A program without global instructions is driven as at the beginning of a session. -/
theorem drive_load (draws : Draws) (m : Machine) {p : Program}
    (havoids : ∀ i ∈ p.instructions, i.Avoids .global) (lines : List (List Char))
    (budgets : ℕ → ℕ) (n : ℕ) :
    LocallyAlike
      (Host.drive (draws.later m.drawn) budgets n ⟨load { tracing := m.tracing } p, lines⟩)
      (Host.drive draws budgets n ⟨m.load p, lines⟩) := by
  have hdrive := @Host.drive_elsewhere ⟨load { tracing := m.tracing } p, lines⟩ .global m.global
    m.drawn draws budgets n havoids
  rw [Host.elsewhere, ← load_eq_elsewhere] at hdrive
  rw [hdrive]
  exact ⟨rfl, rfl, rfl, rfl, rfl, rfl, rfl⟩

theorem memory_step {draws : Draws} {m next : Machine} {wait : Option Medium} {t : Scope}
    (h : ∀ i, m.program.instruction? m.counter = some i → i.Avoids t)
    (hs : m.step draws = .ok (next, wait)) : next.memory t = m.memory t := by
  have hstep := step_elsewhere m (m.memory t) 0 draws h
  rw [elsewhere_self, Draws.later_zero, hs] at hstep
  obtain ⟨hnext, _⟩ := Prod.mk.inj (Except.ok.inj hstep)
  rw [hnext]
  exact memory_elsewhere_same ..

/-- **The memories meet in a swap and nowhere else.**  A program of local instructions is driven in
the same way in all sessions, whatever their global memories are, and leaves these as they are.  A
step of a global instruction other than the swap leaves the local memory as it is, and does and
tells the same whatever it is. -/
theorem memories_isolated :
    (∀ p : Program, (∀ i ∈ p.instructions, i.scope = .local ∧ i ≠ .swap) →
      ∀ (m m' : Machine) (draws draws' : Draws), m'.tracing = m.tracing →
      (∀ i, draws' (m'.drawn + i) = draws (m.drawn + i)) →
      ∀ (lines : List (List Char)) (budgets : ℕ → ℕ) (n : ℕ),
        LocallyAlike (Host.drive draws budgets n ⟨m.load p, lines⟩)
          (Host.drive draws' budgets n ⟨m'.load p, lines⟩) ∧
        (Host.drive draws budgets n ⟨m.load p, lines⟩).2.machine.global = m.global ∧
        (Host.drive draws' budgets n ⟨m'.load p, lines⟩).2.machine.global = m'.global) ∧
    ∀ (m : Machine) (i : Instruction), m.program.instruction? m.counter = some i →
      i.scope = .global → i ≠ .swap → ∀ draws : Draws,
        (∀ next wait, m.step draws = .ok (next, wait) → next.local = m.local) ∧
        ∀ other : Memory, step draws { m with «local» := other } =
          (m.step draws).map (fun (next, wait) => ({ next with «local» := other }, wait)) ∧
          tick draws { m with «local» := other } =
            ((m.tick draws).1, { (m.tick draws).2 with «local» := other }) := by
  constructor
  · intro p hp m m' draws draws' htracing hdraws lines budgets n
    have havoids : ∀ i ∈ p.instructions, i.Avoids .global := by
      intro i hi
      obtain ⟨hscope, hswap⟩ := hp i hi
      exact ⟨by simp [hscope], hswap⟩
    have hlater : draws'.later m'.drawn = draws.later m.drawn := by
      funext i
      rw [Draws.later, Draws.later, Nat.add_comm i, Nat.add_comm i]
      exact hdraws i
    have halike := drive_load draws m havoids lines budgets n
    have halike' := drive_load draws' m' havoids lines budgets n
    rw [htracing, hlater] at halike'
    refine ⟨?_, ?_, ?_⟩
    · exact halike.symm.trans halike'
    · exact @Host.memory_drive ⟨m.load p, lines⟩ .global draws budgets n havoids
    · exact @Host.memory_drive ⟨m'.load p, lines⟩ .global draws' budgets n havoids
  · intro m i hi hscope hswap draws
    have havoids : ∀ j, m.program.instruction? m.counter = some j → j.Avoids .local := by
      intro j hj
      rw [hi] at hj
      cases hj
      exact ⟨by simp [hscope], hswap⟩
    refine ⟨fun next wait hs => memory_step havoids hs, fun other => ?_⟩
    exact ⟨step_elsewhere m other 0 draws havoids, tick_elsewhere other 0 draws havoids⟩

/-- A program that draws a number, asks for one and prints it. -/
def drawThenAsk : Program :=
  .ofCode "demo" [⟨.perform .local .random, ⟨1, 1⟩⟩, ⟨.perform .local (.input .number), ⟨1, 2⟩⟩,
    ⟨.perform .local (.output .number), ⟨1, 3⟩⟩]

/-- A session that has drawn three numbers, uses its second tape and was interrupted. -/
def otherSession : Machine :=
  { global := { active := .second }, drawn := 3, interrupted := true, entered := [7] }

/-- A machine that is about to execute a global instruction. -/
def atGlobalAction : Machine :=
  load {} (.ofCode "demo" [⟨.act .global .byCell .increment, ⟨1, 1⟩⟩])

/-- The program is driven alike in a new session and in the other one, and the global instruction
does not see the local memory. -/
theorem memories_isolated_otherSession :
    (∀ n, LocallyAlike
        (Host.drive (fun i => Float.ofNat i) (fun i => i + 1) n ⟨load {} drawThenAsk, [['5']]⟩)
        (Host.drive (fun i => Float.ofNat (i - 3)) (fun i => i + 1) n
          ⟨otherSession.load drawThenAsk, [['5']]⟩) ∧
      (Host.drive (fun i => Float.ofNat (i - 3)) (fun i => i + 1) n
        ⟨otherSession.load drawThenAsk, [['5']]⟩).2.machine.global = { active := .second }) ∧
    ∀ other, step (fun _ => 0.5) { atGlobalAction with «local» := other } =
      (atGlobalAction.step fun _ => 0.5).map fun (next, wait) =>
        ({ next with «local» := other }, wait) := by
  obtain ⟨hdrives, hsteps⟩ := memories_isolated
  constructor
  · intro n
    have hdraws : ∀ i, Float.ofNat (otherSession.drawn + i - 3) = Float.ofNat (0 + i) := by
      intro i
      rw [show otherSession.drawn = 3 from rfl, Nat.add_sub_cancel_left, Nat.zero_add]
    obtain ⟨halike, _, hglobal⟩ := hdrives drawThenAsk (by decide) {} otherSession
      (fun i => Float.ofNat i) (fun i => Float.ofNat (i - 3)) rfl hdraws [['5']] (fun i => i + 1) n
    exact ⟨halike, hglobal⟩
  · intro other
    exact ((hsteps atGlobalAction _ rfl rfl (by decide) (fun _ => 0.5)).2 other).1

end Machine
end TwinTape
