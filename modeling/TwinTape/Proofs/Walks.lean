import TwinTape.Proofs.Structured
import TwinTape.Proofs.Ticks

/-! # Plain instructions, tick by tick

`Walks draws k h out h'` says that `k` ticks lead from `h` to `h'` without ending the run, and
that `out` is what the program prints and is warned of on the way; reports of executed
instructions and requests for a line are not counted.  Walks can be put in a row (`Walks.trans`).

A machine that is `Ready` at an instruction walks to the next instruction and does to its store
what the instruction performs (`walks_of_performs`), however many bursts, notices and requests
this takes; or it ends the run with the fault of the instruction (`endsIn_of_fails`). -/

namespace TwinTape

/-! ### What a program tells -/

/-- The prints and warnings among events. -/
def prints (es : List Event) : List Notice :=
  es.filterMap fun e => match e with
    | .notice (.print out) => some (.print out)
    | .notice (.warning w) => some (.warning w)
    | _ => none

@[simp] theorem prints_nil : prints [] = [] := rfl

theorem prints_append (es es' : List Event) : prints (es ++ es') = prints es ++ prints es' :=
  List.filterMap_append

theorem prints_told (es : List Event) : prints (Host.told es) = prints es := by
  induction es with
  | nil => rfl
  | cons e es ih =>
      by_cases he : e = .running
      · subst he
        simpa [prints] using ih
      · rw [Host.told_cons he]
        simp only [prints, List.filterMap_cons] at ih ⊢
        rw [ih]

/-! ### Walks -/

/-- Ticks that do not end the run, with what the program tells. -/
def Walks (draws : Draws) (k : ℕ) (h : Host) (out : List Notice) (h' : Host) : Prop :=
  ∃ es, h.ticks draws k = (es, h') ∧ prints es = out ∧ ∀ x ∈ es, ¬ x.isFinal

variable {draws : Draws} {h h₁ h₂ h' : Host} {out out' : List Notice} {j k n : ℕ}

theorem Walks.refl (h : Host) : Walks draws 0 h [] h := ⟨[], rfl, rfl, by simp⟩

theorem Walks.trans (hw : Walks draws k h out h₁) (hw' : Walks draws j h₁ out' h₂) :
    Walks draws (k + j) h (out ++ out') h₂ := by
  obtain ⟨es, ht, rfl, hes⟩ := hw
  obtain ⟨es', ht', rfl, hes'⟩ := hw'
  refine ⟨es ++ es', ?_, prints_append es es', List.forall_mem_append.2 ⟨hes, hes'⟩⟩
  rw [Host.ticks_add ht, ht']

theorem Walks.silent (ht : h.tick draws = (none, h')) : Walks draws 1 h [] h' :=
  ⟨[], by rw [Host.ticks_succ_none ht]; rfl, rfl, by simp⟩

theorem Walks.event {e : Event} (ht : h.tick draws = (some e, h')) (he : ¬ e.isFinal) :
    Walks draws 1 h (prints [e]) h' :=
  ⟨[e], by rw [Host.ticks_succ_some ht]; rfl, rfl, by simpa using he⟩

theorem Walks.endsIn {es : List Event} {e : Event} (hw : Walks draws k h out h₁)
    (he : h₁.EndsIn draws es e h₂) :
    ∃ es', h.EndsIn draws es' e h₂ ∧ prints es' = out ++ prints es := by
  obtain ⟨es₀, ht, rfl, hes₀⟩ := hw
  obtain ⟨n, h₃, hn, hlast, hfin, hes⟩ := he
  refine ⟨es₀ ++ es, ⟨k + n, h₃, ?_, hlast, hfin, List.forall_mem_append.2 ⟨hes₀, hes⟩⟩,
    prints_append es₀ es⟩
  rw [Host.ticks_add ht, hn]

/-! ### Queues and steps -/

/-- Notices that do not end a run. -/
def Harmless (queue : List Notice) : Prop := ∀ x ∈ queue, ¬ (Event.notice x).isFinal

theorem walks_queue (draws : Draws) (m : Machine) (lines : List (List Char)) {queue : List Notice}
    (hq : m.queue = queue) (hf : Harmless queue) :
    ∃ k, Walks draws k ⟨m, lines⟩ (prints (queue.map .notice)) ⟨{ m with queue := [] }, lines⟩ := by
  induction queue generalizing m with
  | nil =>
      have hm : { m with queue := [] } = m := by rw [← hq]
      rw [hm]
      exact ⟨0, Walks.refl _⟩
  | cons x queue ih =>
      have ht : Host.tick draws ⟨m, lines⟩ =
          (some (.notice x), ⟨{ m with queue := queue }, lines⟩) := by
        simp [Host.tick, Machine.tick_of_queue hq, Host.receive]
      obtain ⟨k, hk⟩ := ih { m with queue := queue } rfl fun y hy => hf y (by simp [hy])
      refine ⟨1 + k, ?_⟩
      have hw := (Walks.event ht (hf x (by simp))).trans hk
      rwa [← prints_append] at hw

theorem prints_map_trace (queue : List Notice) (a : ℕ) :
    prints ((queue ++ [Notice.trace a]).map .notice) = prints (queue.map .notice) := by
  simp [prints]

theorem walks_of_steps {m next : Machine} (ha : m.Active) (hc : m.counter < m.program.size)
    (hs : m.Steps draws next none) (hf : Harmless next.queue) (lines : List (List Char)) :
    ∃ k, 0 < k ∧ Walks draws k ⟨m, lines⟩ (prints (next.queue.map .notice))
      ⟨{ next with queue := [] }, lines⟩ := by
  have ht : Host.tick draws ⟨m, lines⟩ = (none, ⟨next.traced m.counter, lines⟩) := by
    have : m.tick draws = (none, next.traced m.counter) := by
      rw [ha.tick_eq, if_neg (by omega), hs.step_eq]
    simp [Host.tick, this]
  cases Machine.traced_eq_or next m.counter with
  | inl htr =>
      obtain ⟨k, hk⟩ := walks_queue draws next lines rfl hf
      rw [htr] at ht
      exact ⟨1 + k, by omega, (Walks.silent ht).trans hk⟩
  | inr htr =>
      have hf' : Harmless (next.queue ++ [.trace m.counter]) := by
        unfold Harmless
        exact List.forall_mem_append.2 ⟨hf, by simp [Event.isFinal]⟩
      have hq : (next.push (.trace m.counter)).queue = next.queue ++ [.trace m.counter] := rfl
      obtain ⟨k, hk⟩ := walks_queue draws (next.push (.trace m.counter)) lines hq hf'
      rw [htr] at ht
      refine ⟨1 + k, by omega, ?_⟩
      have hw := (Walks.silent ht).trans hk
      rwa [prints_map_trace] at hw

/-! ### Machines between two instructions -/

/-- What a run works on. -/
def Host.store (h : Host) : Store := ⟨h.machine.global, h.machine.local, h.lines, h.machine.drawn⟩

/-- The machine is about to execute the instruction at `n` of the program `P` on the store `σ`. -/
structure Ready (P : Program) (h : Host) (n : ℕ) (σ : Store) : Prop where
  program : h.machine.program = P
  counter : h.machine.counter = n
  phase : h.machine.phase = .ready
  interrupted : h.machine.interrupted = false
  queue : h.machine.queue = []
  store : h.store = σ

variable {P : Program} {σ σ₁ : Store}

theorem Ready.active (hr : Ready P h n σ) : h.machine.Active :=
  ⟨hr.queue, hr.interrupted, by simp [Machine.isRunning, hr.phase]⟩

theorem Ready.memory (hr : Ready P h n σ) (s : Scope) : h.machine.memory s = σ.memory s := by
  rw [← hr.store]
  cases s <;> rfl

theorem Ready.isZero (hr : Ready P h n σ) (s : Scope) : h.machine.isZero s = σ.isZero s := by
  simp only [Machine.isZero, Store.isZero, hr.memory]

theorem Ready.lines (hr : Ready P h n σ) : h.lines = σ.lines := by
  rw [← hr.store]
  rfl

/-- An instruction of one step: the machine is ready again, at the counter and with the store
that the step has left. -/
theorem Ready.walk {next : Machine} {i : Instruction} {n' : ℕ} {entered : List ℕ}
    (hr : Ready P h n σ) (hi : P.instruction? n = some i) (hs : h.machine.Steps draws next none)
    (hf : Harmless next.queue) (hout : prints (next.queue.map .notice) = out)
    (hphase : next.phase = .ready) (hcounter : next.counter = n')
    (hstore : (⟨next, h.lines⟩ : Host).store = σ₁) (hentered : next.entered = entered) :
    ∃ k h', 0 < k ∧ Walks draws k h out h' ∧ Ready P h' n' σ₁ ∧ h'.machine.entered = entered := by
  have hlt : h.machine.counter < h.machine.program.size := by
    rw [hr.counter, hr.program]
    exact Program.lt_size_of_instruction? hi
  obtain ⟨k, hk, hw⟩ := walks_of_steps hr.active hlt hs hf h.lines
  rw [hout] at hw
  obtain ⟨hprogram, hinterrupted, _⟩ := hs.frame
  refine ⟨k, _, hk, hw, ⟨?_, hcounter, hphase, ?_, rfl, hstore⟩, hentered⟩
  · exact hprogram.trans hr.program
  · exact hinterrupted.trans hr.interrupted

theorem Ready.walk_quiet {next : Machine} {i : Instruction} {n' : ℕ} {entered : List ℕ}
    (hr : Ready P h n σ) (hi : P.instruction? n = some i) (hs : h.machine.Steps draws next none)
    (hq : next.queue = h.machine.queue) (hphase : next.phase = .ready)
    (hcounter : next.counter = n') (hstore : (⟨next, h.lines⟩ : Host).store = σ₁)
    (hentered : next.entered = entered) :
    ∃ k h', 0 < k ∧ Walks draws k h [] h' ∧ Ready P h' n' σ₁ ∧ h'.machine.entered = entered := by
  rw [hr.queue] at hq
  exact hr.walk hi hs (by simp [hq, Harmless]) (by simp [hq]) hphase hcounter hstore hentered

/-! ### Actions -/

theorem actTimes_fell (m : Memory) (a : Action) (n : ℕ) : (m.actTimes a n true).2 = true := by
  induction n generalizing m with
  | zero => simp
  | succ n ih => rw [Memory.actTimes_succ, Bool.true_or, ih]

theorem actTimes_add (m : Memory) (a : Action) (n k : ℕ) (fell : Bool) :
    m.actTimes a (n + k) fell = (m.actTimes a n fell).1.actTimes a k (m.actTimes a n fell).2 := by
  induction n generalizing m fell with
  | zero => simp
  | succ n ih => rw [Nat.succ_add, Memory.actTimes_succ, ih, ← Memory.actTimes_succ]

/-- The warning for an action: it is due if the cursor fell and none was given before. -/
def warningFor (warned fell : Bool) : List Notice :=
  if fell && !warned then [.warning .tooLeft] else []

theorem warningFor_append {warned between fell : Bool} (h₁ : warned = true → between = true)
    (h₂ : between = true → fell = true) :
    warningFor warned between ++ warningFor between fell = warningFor warned fell := by
  cases warned <;> cases between <;> cases fell <;> simp_all [warningFor]

theorem prints_warningFor (warned fell : Bool) :
    prints ((warningFor warned fell).map .notice) = warningFor warned fell := by
  cases warned <;> cases fell <;> rfl

theorem harmless_warningFor (warned fell : Bool) : Harmless (warningFor warned fell) := by
  cases warned <;> cases fell <;> simp [warningFor, Harmless, Event.isFinal]

theorem actTimes_mono (m : Memory) (a : Action) (n : ℕ) {fell : Bool} (hf : fell = true) :
    (m.actTimes a n fell).2 = true := by
  rw [hf, actTimes_fell]

/-- The machine after a whole repetition. -/
def repeated (m : Machine) (s : Scope) (r : Repetition) : Machine :=
  { m.setMemory s ((m.memory s).actTimes r.action r.left r.warned).1 with
    phase := .ready
    counter := m.counter + 1 }

/-- The machine after a burst that is not the last one. -/
def burstMore (m : Machine) (s : Scope) (r : Repetition) : Machine :=
  { m.setMemory s (m.burstResult s r).1 with
    phase := .repeating ⟨r.action, r.left - Machine.burst, (m.burstResult s r).2⟩ }

theorem repeatBurst_of_lt {m : Machine} {s : Scope} {r : Repetition} (hq : m.queue = [])
    (hb : Machine.burst < r.left) : { m.repeatBurst s r with queue := [] } = burstMore m s r := by
  rw [Machine.repeatBurst_eq]
  cases s <;> simp [hb, burstMore, Machine.setMemory, hq]

theorem repeatBurst_of_le {m : Machine} {s : Scope} {r : Repetition} (hq : m.queue = [])
    (hb : ¬ Machine.burst < r.left) : { m.repeatBurst s r with queue := [] } = repeated m s r := by
  have hmin : min r.left Machine.burst = r.left := by omega
  rw [Machine.repeatBurst_eq]
  cases s <;> simp [hb, repeated, Machine.burstResult, hmin, Machine.setMemory, hq]

/-- A repetition is a burst and the rest of it. -/
theorem actTimes_burst {m : Machine} {s : Scope} {r : Repetition} (hb : Machine.burst < r.left) :
    (m.burstResult s r).1.actTimes r.action (r.left - Machine.burst) (m.burstResult s r).2 =
      (m.memory s).actTimes r.action r.left r.warned := by
  have hmin : min r.left Machine.burst = Machine.burst := by omega
  have hsplit : r.left = Machine.burst + (r.left - Machine.burst) := by omega
  rw [Machine.burstResult, hmin, ← actTimes_add, ← hsplit]

theorem repeated_burstMore {m : Machine} {s : Scope} {r : Repetition}
    (hb : Machine.burst < r.left) :
    repeated (burstMore m s r) s
      ⟨r.action, r.left - Machine.burst, (m.burstResult s r).2⟩ = repeated m s r := by
  have hmem : (burstMore m s r).memory s = (m.burstResult s r).1 := by
    cases s <;> rfl
  unfold repeated
  rw [hmem, actTimes_burst hb]
  cases s <;> rfl

/-- Bursts one after the other do what the repetition does at once. -/
theorem walks_repetition {m : Machine} {s : Scope} {times : Repeat} {a : Action}
    {r : Repetition} (ha : m.Active)
    (hi : m.program.instruction? m.counter = some (.act s times a))
    (hr : m.repetition? s times a = some r) (lines : List (List Char)) :
    ∃ k, 0 < k ∧ Walks draws k ⟨m, lines⟩
      (warningFor r.warned ((m.memory s).actTimes r.action r.left r.warned).2)
      ⟨repeated m s r, lines⟩ := by
  induction hn : r.left using Nat.strong_induction_on generalizing m r with
  | _ left ih =>
      subst hn
      have hq : (m.repeatBurst s r).queue = warningFor r.warned (m.burstResult s r).2 := by
        rw [Machine.repeatBurst_eq, ha.queue]
        rfl
      obtain ⟨k, hk, hw⟩ := walks_of_steps ha (Program.lt_size_of_instruction? hi)
        (Machine.Steps.burst hi hr) (by rw [hq]; exact harmless_warningFor _ _) lines
      rw [hq, prints_warningFor] at hw
      by_cases hb : Machine.burst < r.left
      · rw [repeatBurst_of_lt ha.queue hb] at hw
        have hpos : 0 < Machine.burst := by decide
        have hact : (burstMore m s r).Active :=
          ⟨by simp [burstMore, ha.queue], by simp [burstMore, ha.interrupted], rfl⟩
        obtain ⟨k', hk', hw'⟩ := ih (r.left - Machine.burst) (by omega) hact
          (by simpa [burstMore] using hi) rfl rfl
        have hmem : (burstMore m s r).memory s = (m.burstResult s r).1 := by
          cases s <;> rfl
        rw [repeated_burstMore hb, hmem, actTimes_burst hb] at hw'
        have hwarn : warningFor r.warned (m.burstResult s r).2 ++ warningFor (m.burstResult s r).2
            ((m.memory s).actTimes r.action r.left r.warned).2 =
            warningFor r.warned ((m.memory s).actTimes r.action r.left r.warned).2 := by
          refine warningFor_append (fun h => actTimes_mono _ _ _ h) (fun h => ?_)
          rw [← actTimes_burst hb]
          exact actTimes_mono _ _ _ h
        refine ⟨k + k', by omega, ?_⟩
        rw [← hwarn]
        exact hw.trans hw'
      · rw [repeatBurst_of_le ha.queue hb] at hw
        have hres : m.burstResult s r = (m.memory s).actTimes r.action r.left r.warned := by
          rw [Machine.burstResult, Nat.min_eq_left (by omega)]
        rw [hres] at hw
        exact ⟨k, hk, hw⟩

/-! ### All plain instructions -/

theorem store_setMemory (h : Host) (s : Scope) (memory : Memory) :
    (⟨h.machine.setMemory s memory, h.lines⟩ : Host).store = h.store.setMemory s memory := by
  cases s <;> rfl

/-- The machine with a line for the instruction at its counter. -/
def supplied (m : Machine) (line : List Char) : Machine :=
  { m with phase := .supplied (lineContent line) }

theorem Ready.supplied_active (hr : Ready P h n σ) (line : List Char) :
    (supplied h.machine line).Active := ⟨hr.queue, hr.interrupted, rfl⟩

theorem Ready.tick_ask (draws : Draws) {s : Scope} {medium : Medium} (hr : Ready P h n σ)
    (hi : P.instruction? n = some (.perform s (.input medium))) :
    h.machine.tick draws = (some (.input medium), { h.machine with phase := .waiting }) := by
  have hlt := Program.lt_size_of_instruction? hi
  rw [← hr.program, ← hr.counter] at hlt hi
  have hs : h.machine.Steps draws { h.machine with phase := .waiting } (some medium) :=
    .ask hi (by simp [hr.phase])
  rw [hr.active.tick_eq, if_neg (by omega), hs.step_eq]

theorem Ready.walk_ask (draws : Draws) {s : Scope} {medium : Medium} {line : List Char}
    {rest : List (List Char)} (hr : Ready P h n σ)
    (hi : P.instruction? n = some (.perform s (.input medium))) (hl : σ.lines = line :: rest) :
    Walks draws 1 h [] ⟨supplied h.machine line, rest⟩ := by
  have ht : h.tick draws = (some (.input medium), ⟨supplied h.machine line, rest⟩) := by
    rw [← hr.lines] at hl
    simp [Host.tick, hr.tick_ask draws hi, Host.receive, hl, Machine.enter, Machine.isWaiting,
      supplied, lineContent]
  exact Walks.event ht (by simp [Event.isFinal])

/-- The machine asks for a line, gets the next one and reads it. -/
theorem Ready.walk_input {s : Scope} {medium : Medium} {line : List Char}
    {rest : List (List Char)} {x : Float} (hr : Ready P h n σ)
    (hi : P.instruction? n = some (.perform s (.input medium))) (hl : σ.lines = line :: rest)
    (hx : medium.read (lineContent line) = .ok x) :
    ∃ k h', 0 < k ∧ Walks draws k h [] h' ∧
      Ready P h' (n + 1) { σ.setMemory s ((σ.memory s).set x) with lines := rest } ∧
      h'.machine.entered = h.machine.entered := by
  have hi' : (supplied h.machine line).program.instruction? (supplied h.machine line).counter =
      some (.perform s (.input medium)) := by rw [← hi, ← hr.program, ← hr.counter]; rfl
  have hs : (supplied h.machine line).Steps draws _ none := .input hi' rfl hx
  obtain ⟨k, hk, hw⟩ := walks_of_steps (hr.supplied_active line)
    (Program.lt_size_of_instruction? hi') hs
    (by simp [Machine.advance, Machine.goto, supplied, hr.queue, Harmless]) rest
  have hall := (hr.walk_ask draws hi hl).trans hw
  rw [show prints _ = [] by simp [Machine.advance, Machine.goto, supplied, hr.queue]] at hall
  refine ⟨1 + k, _, by omega, hall, ⟨?_, ?_, ?_, ?_, rfl, ?_⟩, ?_⟩
  · simp [Machine.advance, Machine.goto, supplied, hr.program]
  · simp [Machine.advance, Machine.goto, supplied, hr.counter]
  · simp [Machine.advance, Machine.goto]
  · simp [Machine.advance, Machine.goto, supplied, hr.interrupted]
  · rw [← hr.store]
    cases s <;> rfl
  · simp [Machine.advance, Machine.goto, supplied]

/-- A ready machine walks to the next instruction and does what the instruction performs. -/
theorem walks_of_performs {i : Instruction} (hr : Ready P h n σ) (hi : P.instruction? n = some i)
    (hp : Performs draws i σ out σ₁) :
    ∃ k h', 0 < k ∧ Walks draws k h out h' ∧ Ready P h' (n + 1) σ₁ ∧
      h'.machine.entered = h.machine.entered := by
  have hi' : h.machine.program.instruction? h.machine.counter = some i := by
    rw [hr.program, hr.counter, hi]
  cases hp with
  | @act _ s times a b c memory fell hres hact =>
      rw [← hr.memory] at hres hact
      have hrep : h.machine.repetition? s times a = some ⟨b, c, false⟩ := by
        simp [Machine.repetition?, hr.phase, hres]
      obtain ⟨k, hk, hw⟩ := walks_repetition hr.active hi' hrep h.lines
      simp only [hact] at hw
      have hwarn : warningFor false fell = if fell then [.warning .tooLeft] else [] := by
        cases fell <;> rfl
      rw [hwarn] at hw
      refine ⟨k, _, hk, hw, ⟨?_, ?_, rfl, ?_, ?_, ?_⟩, ?_⟩
      · simp [repeated, hr.program]
      · simp [repeated, hr.counter]
      · simp [repeated, hr.interrupted]
      · simp [repeated, hr.queue]
      · rw [← hr.store, ← store_setMemory]
        simp only [repeated, hact]
        rfl
      · simp [repeated]
  | @random _ s =>
      refine hr.walk_quiet hi (.random hi') ?_ ?_ ?_ ?_ ?_
      · simp [Machine.advance, Machine.goto]
      · simp [Machine.advance, Machine.goto, hr.phase]
      · simp [Machine.advance, Machine.goto, hr.counter]
      · rw [← hr.store]
        cases s <;> rfl
      · simp [Machine.advance, Machine.goto]
  | @switchTape _ s =>
      refine hr.walk_quiet hi (.switchTape hi') ?_ ?_ ?_ ?_ ?_
      · simp [Machine.advance, Machine.goto]
      · simp [Machine.advance, Machine.goto, hr.phase]
      · simp [Machine.advance, Machine.goto, hr.counter]
      · rw [← hr.store]
        cases s <;> rfl
      · simp [Machine.advance, Machine.goto]
  | @output _ s medium out hw =>
      rw [← hr.memory] at hw
      have hq : ((h.machine.push (.print out)).advance).queue = [.print out] := by
        simp [Machine.advance, Machine.goto, Machine.push, hr.queue]
      refine hr.walk hi (.output hi' hw) ?_ ?_ hr.phase ?_ hr.store rfl
      · rw [hq]
        simp [Harmless, Event.isFinal]
      · rw [hq]
        rfl
      · simp [Machine.advance, Machine.goto, Machine.push, hr.counter]
  | @input _ s medium line rest x hl hx =>
      exact hr.walk_input hi hl hx
  | reserved =>
      refine hr.walk_quiet hi (.reserved hi') rfl hr.phase ?_ hr.store rfl
      simp [Machine.advance, Machine.goto, hr.counter]
  | swap =>
      refine hr.walk_quiet hi (.swap hi') rfl hr.phase ?_ ?_ rfl
      · simp [Machine.advance, Machine.goto, Machine.swapCells, hr.counter]
      · rw [← hr.store]
        rfl

/-! ### Faults -/

theorem endsIn_of_error {m : Machine} {i : Instruction} {f : Fault} (ha : m.Active)
    (hi : m.program.instruction? m.counter = some i)
    (hs : m.stepInstruction draws i = .error f) (lines : List (List Char)) :
    Host.EndsIn draws ⟨m, lines⟩ []
      (.notice (.fault ((f.located (m.program.position m.counter)).inSource m.program.source)))
      ⟨{ m.stop with queue := [] }, lines⟩ := by
  have hlt := Program.lt_size_of_instruction? hi
  have hm : m.tick draws = (some (.notice (.fault
      ((f.located (m.program.position m.counter)).inSource m.program.source))),
      { m.stop with queue := [] }) := by
    rw [ha.tick_eq, if_neg (by omega), Machine.step_of_instruction hi, hs]
    rfl
  refine ⟨0, ⟨m, lines⟩, rfl, ?_, rfl, by simp⟩
  simp [Host.tick, hm, Host.receive]

/-- A ready machine ends the run with the fault of an instruction that fails. -/
theorem endsIn_of_fails {i : Instruction} {f : Fault} (hr : Ready P h n σ)
    (hi : P.instruction? n = some i) (hf : Fails i σ f σ₁) :
    ∃ es h', h.EndsIn draws es
        (.notice (.fault ((f.located (P.position n)).inSource P.source))) h' ∧
      prints es = [] ∧ h'.store = σ₁ ∧ h'.machine.counter = n := by
  have hi' : h.machine.program.instruction? h.machine.counter = some i := by
    rw [hr.program, hr.counter, hi]
  rw [← hr.program, ← hr.counter]
  cases hf with
  | @act _ s times a hres =>
      rw [← hr.memory] at hres
      have hs : h.machine.stepInstruction draws (.act s times a) = .error .countNotFinite := by
        simp [Machine.stepInstruction, Machine.repetition?, hr.phase, hres]
      exact ⟨[], _, endsIn_of_error hr.active hi' hs h.lines, rfl, hr.store, rfl⟩
  | @output _ s medium f hw =>
      rw [← hr.memory] at hw
      have hs : h.machine.stepInstruction draws (.perform s (.output medium)) = .error f := by
        simp [Machine.stepInstruction, Machine.stepOperation, hw, bind, Except.bind]
      exact ⟨[], _, endsIn_of_error hr.active hi' hs h.lines, rfl, hr.store, rfl⟩
  | @input _ s medium line rest f hl hx =>
      have hs : (supplied h.machine line).stepInstruction draws (.perform s (.input medium)) =
          .error f := by
        simp [Machine.stepInstruction, Machine.stepOperation, supplied, hx, bind, Except.bind]
      have hend := endsIn_of_error (hr.supplied_active line) hi' hs rest
      obtain ⟨es, hes, hprints⟩ := (hr.walk_ask draws hi hl).endsIn hend
      refine ⟨es, _, hes, hprints, ?_, rfl⟩
      rw [← hr.store]
      rfl

/-! ### No line left -/

theorem ticks_of_waiting (draws : Draws) {s : Scope} {medium : Medium} {m : Machine}
    (hq : m.queue = []) (hint : m.interrupted = false) (hphase : m.phase = .waiting)
    (hi : m.program.instruction? m.counter = some (.perform s (.input medium))) (k : ℕ) :
    Host.ticks draws k ⟨m, []⟩ = (List.replicate k (.input medium), ⟨m, []⟩) := by
  have hlt := Program.lt_size_of_instruction? hi
  have ha : m.Active := ⟨hq, hint, by simp [Machine.isRunning, hphase]⟩
  have hs : m.Steps draws { m with phase := .waiting } (some medium) :=
    .ask hi (by simp [hphase])
  have ht : Host.tick draws ⟨m, []⟩ = (some (.input medium), ⟨m, []⟩) := by
    have hsame : { m with phase := .waiting } = m := by rw [← hphase]
    have hm : m.tick draws = (some (.input medium), m) := by
      rw [ha.tick_eq, if_neg (by omega), hs.step_eq, hsame]
    simp [Host.tick, hm, Host.receive]
  induction k with
  | zero => rfl
  | succ k ih => rw [Host.ticks_succ_some ht, ih, List.replicate_succ]

/-- Without a line, a run that needs one never ends. -/
theorem not_endsIn_of_starved {s : Scope} {medium : Medium} {es : List Event} {e : Event}
    (hr : Ready P h n σ) (hi : P.instruction? n = some (.perform s (.input medium)))
    (hl : σ.lines = []) : ¬ h.EndsIn draws es e h' := by
  rintro ⟨k, h₁, hk, ht, he, _⟩
  have hfirst : h.tick draws =
      (some (.input medium), ⟨{ h.machine with phase := .waiting }, []⟩) := by
    rw [← hr.lines] at hl
    simp [Host.tick, hr.tick_ask draws hi, Host.receive, hl]
  have hi' : h.machine.program.instruction? h.machine.counter =
      some (.perform s (.input medium)) := by rw [hr.program, hr.counter, hi]
  have hwait := ticks_of_waiting draws (m := { h.machine with phase := .waiting })
    hr.queue hr.interrupted rfl hi'
  have hall : ∀ j, ∀ x ∈ (h.ticks draws j).1, ¬ x.isFinal := by
    intro j x hx
    cases j with
    | zero => simp [Host.ticks] at hx
    | succ j =>
        rw [Host.ticks_succ_some hfirst, hwait j, ← List.replicate_succ] at hx
        rw [List.eq_of_mem_replicate hx]
        simp [Event.isFinal]
  have hlast := hall (k + 1) e
  rw [Host.ticks_tell hk ht 0] at hlast
  exact hlast (by simp) he

end TwinTape
