import TwinTape.Proofs.Relocation

/-! # Programs one after the other

Two programs are loaded one after the other, or one program is loaded that consists of the
instructions of both.

A list of instructions without unmatched brackets keeps its loops when others follow it, and so do
those that follow (`target?_append_left`, `target?_append_right`).  So the long program hosts both
others.  A machine that has started the first program and never uses the local memory is `Confined`
to it until it ends, and where it ends, it is the machine that starts the second program, but for
brackets of the first that have been entered (`relocate_load`). -/

namespace TwinTape

/-! ### Brackets -/

section brackets
variable {is js : List Instruction} {k : Loop.Kind} {s : Loop.Side} {a b o c : ℕ}

theorem bracketAt_append_left (js : List Instruction) (h : a < is.length) :
    bracketAt (is ++ js) a = bracketAt is a := by
  unfold bracketAt
  rw [List.getElem?_append_left h]

theorem bracketAt_append_right : bracketAt (is ++ js) (a + is.length) = bracketAt js a := by
  unfold bracketAt
  rw [List.getElem?_append_right (by omega), Nat.add_sub_cancel]

/-- A loop is not disturbed by what follows. -/
theorem Encloses.append (h : Encloses is k o c) : Encloses (is ++ js) k o c := by
  have hc := lt_length_of_bracketAt h.closing
  have hlt := h.lt
  refine ⟨hlt, ?_, ?_, ?_⟩
  · rw [bracketAt_append_left js (by omega)]
    exact h.opening
  · rw [bracketAt_append_left js hc]
    exact h.closing
  · rw [List.take_append_of_le_length hc.le]
    exact h.balanced

theorem encloses_append_right (is : List Instruction) :
    Encloses (is ++ js) k (o + is.length) (c + is.length) ↔ Encloses js k o c := by
  have hbody : ((is ++ js).take (c + is.length)).drop (o + is.length + 1) =
      (js.take c).drop (o + 1) := by
    have hlen : o + is.length + 1 = is.length + (o + 1) := by omega
    rw [Nat.add_comm c, List.take_length_add_append, hlen, ← List.drop_drop, List.drop_left]
  constructor
  · rintro ⟨hlt, ho, hc, hbal⟩
    rw [bracketAt_append_right] at ho hc
    rw [hbody] at hbal
    exact ⟨by omega, ho, hc, hbal⟩
  · rintro ⟨hlt, ho, hc, hbal⟩
    refine ⟨by omega, ?_, ?_, ?_⟩
    · rw [bracketAt_append_right]
      exact ho
    · rw [bracketAt_append_right]
      exact hc
    · rw [hbody]
      exact hbal

/-- The partner of a bracket of the first instructions is among them. -/
theorem partner_append (h : (JumpTable.ofInstructions is).unmatched = []) (ha : a < is.length)
    (hab : Encloses (is ++ js) k a b ∨ Encloses (is ++ js) k b a) :
    Encloses is k a b ∨ Encloses is k b a := by
  obtain ⟨s, hs⟩ : ∃ s, bracketAt is a = some (k, s) := by
    rw [← bracketAt_append_left js ha]
    cases hab with
    | inl hab => exact ⟨_, hab.opening⟩
    | inr hab => exact ⟨_, hab.closing⟩
  obtain ⟨b', hb'⟩ := JumpTable.exists_partner (by simp [h]) hs
  obtain rfl : b = b' := JumpTable.partner_unique hab (hb'.imp Encloses.append Encloses.append)
  exact hb'

theorem lt_length_of_partner (h : Encloses is k a b ∨ Encloses is k b a) : b < is.length := by
  cases h with
  | inl h => exact lt_length_of_bracketAt h.closing
  | inr h => exact lt_length_of_bracketAt h.opening

namespace JumpTable

theorem target?_append_left (h : (ofInstructions is).unmatched = []) (ha : a < is.length) :
    (ofInstructions (is ++ js)).target? a = (ofInstructions is).target? a := by
  ext b
  rw [target?_eq_some_iff, target?_eq_some_iff]
  constructor
  · rintro ⟨k, hab⟩
    exact ⟨k, partner_append h ha hab⟩
  · rintro ⟨k, hab⟩
    exact ⟨k, hab.imp Encloses.append Encloses.append⟩

theorem target?_append_right (h : (ofInstructions is).unmatched = []) :
    (ofInstructions (is ++ js)).target? (a + is.length) =
      ((ofInstructions js).target? a).map (· + is.length) := by
  ext b
  rw [Option.map_eq_some_iff, target?_eq_some_iff]
  constructor
  · rintro ⟨k, hab⟩
    have hb : is.length ≤ b := by
      by_contra hlt
      have := lt_length_of_partner (partner_append h (by omega) hab.symm)
      omega
    obtain ⟨b, rfl⟩ : ∃ b', b = b' + is.length := ⟨b - is.length, by omega⟩
    rw [encloses_append_right is, encloses_append_right is] at hab
    exact ⟨b, target?_eq_some_iff.2 ⟨k, hab⟩, rfl⟩
  · rintro ⟨b, hab, rfl⟩
    obtain ⟨k, hab⟩ := target?_eq_some_iff.1 hab
    exact ⟨k, hab.imp (encloses_append_right is).2 (encloses_append_right is).2⟩

end JumpTable
end brackets

/-! ### Hosts of two programs -/

namespace Program
variable {p p₁ p₂ : Program}

theorem size_append (hp : p.instructions = p₁.instructions ++ p₂.instructions) :
    p.size = p₁.size + p₂.size := by
  rw [← length_instructions, hp, List.length_append, length_instructions, length_instructions]

theorem hosts_left (hp : p.instructions = p₁.instructions ++ p₂.instructions)
    (hmatched : p₁.jumps.unmatched = []) {a : ℕ} (ha : a < p₁.size) : p.Hosts p₁ 0 a := by
  rw [unmatched_eq] at hmatched
  rw [← length_instructions] at ha
  constructor
  · rw [instruction?_eq, instruction?_eq, hp]
    exact List.getElem?_append_left ha
  · rw [target?_eq, target?_eq, hp]
    simpa using JumpTable.target?_append_left hmatched ha

theorem hosts_right (hp : p.instructions = p₁.instructions ++ p₂.instructions)
    (hmatched : p₁.jumps.unmatched = []) (a : ℕ) : p.Hosts p₂ p₁.size a := by
  rw [unmatched_eq] at hmatched
  rw [← length_instructions p₁]
  constructor
  · rw [instruction?_eq, instruction?_eq, hp, List.getElem?_append_right (by omega),
      Nat.add_sub_cancel]
  · rw [target?_eq, target?_eq, hp]
    exact JumpTable.target?_append_right hmatched

end Program

/-! ### The first program -/

namespace Machine
variable {draws : Draws} {m next : Machine} {wait : Option Medium} {p p₁ p₂ : Program}

theorem Steps.lt_size (hs : Steps draws m next wait) : m.counter < m.program.size := by
  by_contra hc
  have hnone : m.program.instruction? m.counter = none := by
    rw [instruction?_eq, List.getElem?_eq_none_iff, Program.length_instructions]
    omega
  have hstep := step_eq_ok_iff.2 hs
  simp [step, hnone] at hstep

theorem Steps.mem_entered (hs : Steps draws m next wait) {x : ℕ} (hx : x ∈ next.entered) :
    x ∈ m.entered ∨ x = m.counter := by
  cases hs with
  | burst =>
      rw [repeatBurst_eq] at hx
      simp at hx
      exact .inl hx
  | opening =>
      rw [stepOpening_eq] at hx
      dsimp only at hx
      split at hx
      · exact .inl (List.mem_of_mem_erase hx)
      · exact (List.mem_insert_iff.1 hx).symm
  | closing =>
      rw [stepClosing_eq] at hx
      dsimp only at hx
      split at hx
      · exact .inl (List.mem_of_mem_erase hx)
      · exact .inl hx
  | _ =>
      simp [advance, goto, push, swapCells] at hx
      exact .inl hx

/-- The machine runs the program `p`, and nothing has happened that only the host or local
instructions can do. -/
structure Confined (p : Program) (m : Machine) : Prop where
  program : m.program = p
  coherent : m.Coherent
  running : m.isRunning = true
  interrupted : m.interrupted = false
  entered : ∀ x ∈ m.entered, x < p.size
  «local» : m.local = {}

theorem confined_load (m : Machine) (p : Program) : (m.load p).Confined p where
  program := rfl
  coherent := coherent_load m p
  running := rfl
  interrupted := rfl
  entered := by simp [load]
  «local» := rfl

theorem Confined.setQueue (h : m.Confined p) (queue : List Notice) :
    Confined p { m with queue := queue } where
  program := h.program
  coherent := h.coherent.congr rfl rfl rfl
  running := h.running
  interrupted := h.interrupted
  entered := h.entered
  «local» := h.local

theorem Confined.traced (h : m.Confined p) (a : ℕ) : (m.traced a).Confined p := by
  rcases traced_eq_or m a with htr | htr
  · rwa [htr]
  · rw [htr]
    exact h.setQueue _

theorem Confined.step (h : m.Confined p) (hp : ∀ i ∈ p.instructions, i.Avoids .local)
    (hs : m.step draws = .ok (next, wait)) : next.Confined p := by
  have hsteps := step_eq_ok_iff.1 hs
  obtain ⟨hprogram, hinterrupted, _⟩ := hsteps.frame
  have hlocal : next.memory .local = m.memory .local := by
    refine memory_step (fun i hi => hp i ?_) hs
    rw [h.program, instruction?_eq] at hi
    exact List.mem_of_getElem? hi
  exact {
    program := hprogram.trans h.program
    coherent := hsteps.coherent h.coherent
    running := hsteps.isRunning h.running
    interrupted := hinterrupted.trans h.interrupted
    entered := by
      intro x hx
      rcases hsteps.mem_entered hx with hx | rfl
      · exact h.entered x hx
      · rw [← h.program]
        exact hsteps.lt_size
    «local» := hlocal.trans h.local }

theorem Confined.enter (h : m.Confined p) (line : List Char) : (m.enter line).2.Confined p := by
  unfold Machine.enter
  split
  · rename_i hw
    have hphase : m.phase = .waiting := by simpa [isWaiting] using hw
    exact {
      program := h.program
      coherent := ⟨h.coherent.counter, by simp, fun _ _ => h.coherent.waiting hphase, by simp⟩
      running := rfl
      interrupted := h.interrupted
      entered := h.entered
      «local» := h.local }
  · exact h

theorem Confined.exists_notice (h : m.Confined p) (ha : ¬ m.Active) :
    ∃ n queue, m.queue = n :: queue := by
  rcases cases_of_not_active ha with hq | ⟨_, hi⟩ | ⟨_, _, hr⟩
  · exact hq
  · simp [h.interrupted] at hi
  · simp [h.running] at hr

/-- As long as the program has not ended, it is still the only one. -/
theorem Confined.tick (h : m.Confined p) (hp : ∀ i ∈ p.instructions, i.Avoids .local)
    (hgoes : ∀ e, (m.tick draws).1 = some e → ¬ e.isFinal) :
    (m.tick draws).2.Confined p ∧ (m.Active → m.counter < p.size) := by
  by_cases ha : m.Active
  · rw [ha.tick_eq] at hgoes ⊢
    by_cases hc : m.program.size ≤ m.counter
    · rw [if_pos hc] at hgoes
      exact absurd rfl (hgoes .stopped rfl)
    · rw [if_neg hc] at hgoes ⊢
      rw [h.program] at hc
      refine ⟨?_, fun _ => by omega⟩
      cases hs : m.step draws with
      | error fault =>
          rw [hs] at hgoes
          exact absurd rfl (hgoes _ rfl)
      | ok result =>
          obtain ⟨next, _ | medium⟩ := result
          · exact (h.step hp hs).traced m.counter
          · exact h.step hp hs
  · refine ⟨?_, fun h => absurd h ha⟩
    obtain ⟨n, queue, hq⟩ := h.exists_notice ha
    rw [tick_of_queue hq]
    exact h.setQueue queue

/-- At the end of the program there is nothing to finish. -/
theorem Confined.phase_of_size_le (h : m.Confined p) (hc : p.size ≤ m.counter) :
    m.phase = .ready := by
  have hnone : m.program.instruction? m.counter = none := by
    rw [h.program, instruction?_eq, List.getElem?_eq_none_iff, Program.length_instructions]
    exact hc
  cases hp : m.phase with
  | ready => rfl
  | idle =>
      have hr := h.running
      rw [isRunning, hp] at hr
      exact absurd hr (by decide)
  | waiting =>
      obtain ⟨s, medium, hi⟩ := h.coherent.waiting hp
      rw [hnone] at hi
      contradiction
  | supplied line =>
      obtain ⟨s, medium, hi⟩ := h.coherent.supplied line hp
      rw [hnone] at hi
      contradiction
  | repeating r =>
      obtain ⟨⟨i, hi, _⟩, _⟩ := h.coherent.repeating r hp
      rw [hnone] at hi
      contradiction

/-- A machine that tells that its program has stopped is at the end of it. -/
theorem Confined.of_stopped (h : m.Confined p) (hstop : m.tick draws = (some .stopped, next)) :
    m.Active ∧ m.counter = p.size ∧ next = m.stop := by
  by_cases ha : m.Active
  · rw [ha.tick_eq] at hstop
    by_cases hc : m.program.size ≤ m.counter
    · rw [if_pos hc] at hstop
      obtain ⟨_, rfl⟩ := Prod.mk.inj hstop
      have hle := h.coherent.counter
      rw [h.program] at hc hle
      exact ⟨ha, by omega, rfl⟩
    · rw [if_neg hc] at hstop
      cases hs : m.step draws with
      | error fault => simp [hs] at hstop
      | ok result =>
          obtain ⟨next, _ | medium⟩ := result
          · simp [hs] at hstop
          · simp [hs] at hstop
  · obtain ⟨n, queue, hq⟩ := h.exists_notice ha
    rw [tick_of_queue hq] at hstop
    simp at hstop

/-- **Where the first program ends, the long one is about to begin with the second.** -/
theorem Confined.relocate_load (h : m.Confined p₁) (ha : m.Active) (hc : m.counter = p₁.size)
    (p p₂ : Program) :
    (m.stop.load p₂).relocate p p₁.size m.entered = m.relocate p 0 [] := by
  have hphase := h.phase_of_size_le hc.ge
  rw [relocate_zero]
  simp [relocate, load, stop, hphase, hc, ha.queue, ha.interrupted, h.local]

end Machine

namespace Host
variable {draws : Draws} {h h' : Host} {p : Program} {e : Event} {k : ℕ}

theorem fst_tick (draws : Draws) (h : Host) : (h.tick draws).1 = (h.machine.tick draws).1 := by
  unfold tick
  rcases h.machine.tick draws with ⟨_ | e, m⟩ <;> rfl

theorem of_stopped (hc : h.machine.Confined p) (hstop : h.tick draws = (some .stopped, h')) :
    h.machine.Active ∧ h.machine.counter = p.size ∧ h' = ⟨h.machine.stop, h.lines⟩ := by
  unfold tick at hstop
  rcases ht : h.machine.tick draws with ⟨_ | e, m⟩ <;> rw [ht] at hstop
  · simp at hstop
  · obtain ⟨he, rfl⟩ := Prod.mk.inj hstop
    cases he
    obtain ⟨hactive, hcounter, rfl⟩ := hc.of_stopped ht
    exact ⟨hactive, hcounter, rfl⟩

theorem confined_tick (draws : Draws) (hc : h.machine.Confined p)
    (hp : ∀ i ∈ p.instructions, i.Avoids .local)
    (hgoes : ∀ e, (h.tick draws).1 = some e → ¬ e.isFinal) :
    (h.tick draws).2.machine.Confined p ∧ (h.machine.Active → h.machine.counter < p.size) := by
  rw [fst_tick] at hgoes
  obtain ⟨hnext, hlt⟩ := hc.tick hp hgoes
  refine ⟨?_, hlt⟩
  unfold tick
  rcases ht : h.machine.tick draws with ⟨_ | e, m⟩ <;> rw [ht] at hnext
  · exact hnext
  · dsimp only [receive]
    split
    · exact hnext.enter _
    · exact hnext

/-- A machine stays confined to its program until the program ends. -/
theorem confined_tickCourse (hc : h.machine.Confined p)
    (hp : ∀ i ∈ p.instructions, i.Avoids .local)
    (hgoes : ∀ x ∈ Moment.events (h.tickCourse draws k).1, ¬ x.1.isFinal) :
    (h.tickCourse draws k).2.machine.Confined p ∧
      ∀ j < k, (h.tickCourse draws j).2.machine.Active →
        (h.tickCourse draws j).2.machine.counter < p.size := by
  induction k with
  | zero => exact ⟨hc, by simp⟩
  | succ k ih =>
      rw [tickCourse_add, tickCourse_one] at hgoes ⊢
      rw [Moment.events_append, events_tickMoments] at hgoes
      obtain ⟨hbefore, hlt⟩ := ih fun x hx => hgoes x (List.mem_append_left _ hx)
      obtain ⟨hnext, hlast⟩ := confined_tick draws hbefore hp fun e he =>
        hgoes (e, ((h.tickCourse draws k).2.tick draws).2) (by simp [he])
      refine ⟨hnext, fun j hj => ?_⟩
      rcases Nat.lt_succ_iff_lt_or_eq.1 hj with hj | rfl
      · exact hlt j hj
      · exact hlast

theorem exists_tick_of_events {xs : List (Event × Host)}
    (hk : Moment.events (h.tickCourse draws k).1 = xs ++ [(e, h')]) :
    ∃ j, Moment.events (h.tickCourse draws j).1 = xs ∧
      (h.tickCourse draws j).2.tick draws = (some e, h') := by
  induction k with
  | zero => simp [tickCourse] at hk
  | succ k ih =>
      rw [tickCourse_add, tickCourse_one, Moment.events_append, events_tickMoments] at hk
      rcases ht : (h.tickCourse draws k).2.tick draws with ⟨_ | e', h₁⟩
      · rw [ht] at hk
        exact ih (by simpa using hk)
      · rw [ht] at hk
        obtain ⟨hxs, hlast⟩ := List.append_inj' hk rfl
        cases hlast
        exact ⟨k, hxs, ht⟩

/-! ### Both programs -/

section both
variable {m : Machine} {lines : List (List Char)} {p₁ p₂ : Program} {h₁ : Host}
  {seen : List (Event × Host)}

/-- The long program tells what the first one tells, and then is about to begin with the second
one. -/
theorem exists_handover (hp : p.instructions = p₁.instructions ++ p₂.instructions)
    (hmatched : p₁.jumps.unmatched = []) (havoids : ∀ i ∈ p₁.instructions, i.Avoids .local)
    (hk : Moment.events (tickCourse draws k ⟨m.load p₁, lines⟩).1 = seen ++ [(.stopped, h₁)])
    (hgoes : ∀ x ∈ seen, ¬ x.1.isFinal) :
    ∃ j past, (∀ x ∈ past, x < p₁.size) ∧
      outcomes 0 (Moment.events (tickCourse draws j ⟨m.load p, lines⟩).1) = outcomes 0 seen ∧
      (tickCourse draws j ⟨m.load p, lines⟩).2 =
        relocate p p₁.size past ⟨h₁.machine.load p₂, h₁.lines⟩ := by
  obtain ⟨j, hseen, htick⟩ := exists_tick_of_events hk
  obtain ⟨hconfined, hlt⟩ := confined_tickCourse (Machine.confined_load m p₁) havoids
    (hseen ▸ hgoes)
  have hload : (⟨m.load p, lines⟩ : Host) = relocate p 0 [] ⟨m.load p₁, lines⟩ := by
    rw [relocate, Machine.relocate_zero]
    rfl
  have hsize := Program.size_append hp
  obtain ⟨hsame, hlast⟩ := tickCourse_relocate (h := ⟨m.load p₁, lines⟩) (p := p) (k := j) draws
    (List.forall_mem_nil _) (fun a ha => Program.hosts_left hp hmatched ha) fun i hi hactive => by
      have hcounter := hlt i hi hactive
      have hprogram := program_tickCourse draws i ⟨m.load p₁, lines⟩
      rw [hprogram]
      show p.size ≤ _ + 0 ↔ p₁.size ≤ _
      omega
  obtain ⟨hactive, hcounter, rfl⟩ := of_stopped hconfined htick
  refine ⟨j, _, hconfined.entered, ?_, ?_⟩
  · rw [hload, hsame, hseen]
  · rw [hload, hlast]
    exact congrArg (Host.mk · _) (hconfined.relocate_load hactive hcounter p p₂).symm

/-- **The long program tells what both programs tell**, tick by tick. -/
theorem exists_outcomes_append (hp : p.instructions = p₁.instructions ++ p₂.instructions)
    (hmatched : p₁.jumps.unmatched = []) (havoids : ∀ i ∈ p₁.instructions, i.Avoids .local)
    (hk : Moment.events (tickCourse draws k ⟨m.load p₁, lines⟩).1 = seen ++ [(.stopped, h₁)])
    (hgoes : ∀ x ∈ seen, ¬ x.1.isFinal) :
    ∃ j, outcomes 0 (Moment.events (tickCourse draws j ⟨m.load p, lines⟩).1) = outcomes 0 seen ∧
      ∀ i, outcomes 0 (Moment.events (tickCourse draws (j + i) ⟨m.load p, lines⟩).1) =
        outcomes 0 seen ++ outcomes p₁.size
          (Moment.events (tickCourse draws i ⟨h₁.machine.load p₂, h₁.lines⟩).1) := by
  obtain ⟨j, past, hpast, hseen, hlast⟩ := exists_handover hp hmatched havoids hk hgoes
  refine ⟨j, hseen, fun i => ?_⟩
  have hsize := Program.size_append hp
  obtain ⟨hsame, _⟩ := tickCourse_relocate (h := ⟨h₁.machine.load p₂, h₁.lines⟩) (p := p) (k := i)
    draws hpast (fun a _ => Program.hosts_right hp hmatched a) fun i' _ _ => by
      rw [program_tickCourse]
      show p.size ≤ _ + p₁.size ↔ p₂.size ≤ _
      omega
  rw [tickCourse_add, Moment.events_append, outcomes_append, hseen, hlast, hsame]

end both
end Host

/-- **Programs that are loaded one after the other run as one program.**  The first program matches
its brackets and uses neither the local memory nor the swap, and it is driven until it stops.  Then
what can be heard of the two programs one after the other is what can be heard of the program with
the instructions of both, event by event and with the same memories after each event.  Addresses
in reports are greater by the size of the first program, and faults have other places. -/
theorem Machine.programs_concatenate (draws : Draws) (m : Machine) (lines : List (List Char))
    {p p₁ p₂ : Program} (hp : p.instructions = p₁.instructions ++ p₂.instructions)
    (hmatched : p₁.jumps.unmatched = [])
    (havoids : ∀ i ∈ p₁.instructions, i.scope ≠ .local ∧ i ≠ .swap)
    {budgets₁ : ℕ → ℕ} {n₁ : ℕ} {seen : List (Event × Host)} {h₁ : Host}
    (hstop : (⟨m.load p₁, lines⟩ : Host).heard draws budgets₁ n₁ = seen ++ [(.stopped, h₁)])
    (hgoes : ∀ x ∈ seen, ¬ x.1.isFinal)
    {budgets budgets₂ : ℕ → ℕ} (hb : ∀ i, 0 < budgets i) (hb₂ : ∀ i, 0 < budgets₂ i)
    (told : List (Event × Store)) :
    (∃ n, Host.outcomes 0 ((⟨m.load p, lines⟩ : Host).heard draws budgets n) = told) ↔
      told <+: Host.outcomes 0 seen ∨
      ∃ n, Host.outcomes 0 seen ++ Host.outcomes p₁.size
        ((⟨h₁.machine.load p₂, h₁.lines⟩ : Host).heard draws budgets₂ n) = told := by
  obtain ⟨k, hk⟩ := Host.exists_ticks_of_heard draws budgets₁ n₁ ⟨m.load p₁, lines⟩
  rw [hstop] at hk
  obtain ⟨j, hseen, hboth⟩ := Host.exists_outcomes_append hp hmatched havoids hk hgoes
  constructor
  · rintro ⟨n, rfl⟩
    obtain ⟨i, hi⟩ := Host.exists_ticks_of_heard draws budgets n ⟨m.load p, lines⟩
    rw [← hi]
    rcases Nat.le_total i j with hij | hij
    · left
      obtain ⟨d, rfl⟩ := Nat.exists_eq_add_of_le hij
      rw [← hseen, Host.tickCourse_add, Moment.events_append, Host.outcomes_append]
      exact List.prefix_append _ _
    · right
      obtain ⟨d, rfl⟩ := Nat.exists_eq_add_of_le hij
      obtain ⟨n₂, hn₂⟩ := Host.exists_heard_of_ticks hb₂ d ⟨h₁.machine.load p₂, h₁.lines⟩
      exact ⟨n₂, by rw [hn₂, hboth d]⟩
  · rintro (htold | ⟨n₂, rfl⟩)
    · obtain ⟨n, hn⟩ := Host.exists_heard_of_ticks hb j ⟨m.load p, lines⟩
      rw [← hseen, ← hn] at htold
      obtain ⟨xs, hxs, rfl⟩ := List.prefix_map_iff.1 htold
      obtain ⟨i, hi⟩ := Host.exists_heard_of_prefix hxs
      exact ⟨i, by rw [hi]; rfl⟩
    · obtain ⟨i, hi⟩ := Host.exists_ticks_of_heard draws budgets₂ n₂
        ⟨h₁.machine.load p₂, h₁.lines⟩
      obtain ⟨n, hn⟩ := Host.exists_heard_of_ticks hb (j + i) ⟨m.load p, lines⟩
      exact ⟨n, by rw [hn, hboth i, hi]⟩

/-- Asks for a number and counts it down to zero. -/
def Program.countDown : Program :=
  .ofCode "first" [⟨.perform .global (.input .number), ⟨1, 1⟩⟩,
    ⟨.perform .global (.opening .testLast), ⟨1, 2⟩⟩, ⟨.act .global .once .decrement, ⟨1, 3⟩⟩,
    ⟨.perform .global (.closing .testLast), ⟨1, 4⟩⟩]

/-- Prints a number and comes to a bracket without a partner. -/
def Program.printThenFail : Program :=
  .ofCode "second" [⟨.perform .global (.output .number), ⟨1, 1⟩⟩,
    ⟨.perform .local (.closing .testFirst), ⟨1, 2⟩⟩]

/-- A traced session that has been used before. -/
def Machine.tracedSession : Machine :=
  { tracing := true, entered := [9], drawn := 2, global := { active := .second } }

/-- The last event tells that the program has stopped, and none before it ends the run. -/
def Host.endsStopped (xs : List (Event × Host)) : Bool :=
  match xs.getLast? with
  | some (.stopped, _) => xs.dropLast.all fun x => !x.1.isFinal
  | _ => false

theorem Host.exists_of_endsStopped {xs : List (Event × Host)} (h : endsStopped xs = true) :
    ∃ seen h₁, xs = seen ++ [(.stopped, h₁)] ∧ ∀ x ∈ seen, ¬ x.1.isFinal := by
  unfold endsStopped at h
  split at h
  · rename_i h₁ hlast
    refine ⟨xs.dropLast, h₁, (List.dropLast_append_getLast? _ hlast).symm, fun x hx => ?_⟩
    simpa using List.all_eq_true.1 h x hx
  · contradiction

/-- The first program stops after it has been given a line, and then the two programs run as
one. -/
theorem Machine.programs_concatenate_countDown : ∃ seen h₁,
    (⟨tracedSession.load .countDown, [['1']]⟩ : Host).heard (fun _ => 0.5) (fun _ => 3) 6 =
      seen ++ [(.stopped, h₁)] ∧
    (∀ x ∈ seen, ¬ x.1.isFinal) ∧
    ∀ told,
      (∃ n, Host.outcomes 0 ((⟨tracedSession.load (.ofCode "both"
        (Program.countDown.code ++ Program.printThenFail.code)), [['1']]⟩ : Host).heard
          (fun _ => 0.5) (fun _ => 1) n) = told) ↔
      told <+: Host.outcomes 0 seen ∨
      ∃ n, Host.outcomes 0 seen ++ Host.outcomes 4
        ((⟨h₁.machine.load .printThenFail, h₁.lines⟩ : Host).heard (fun _ => 0.5)
          (fun i => i + 1) n) = told := by
  obtain ⟨seen, h₁, hstop, hgoes⟩ : ∃ seen h₁,
      (⟨tracedSession.load .countDown, [['1']]⟩ : Host).heard (fun _ => 0.5) (fun _ => 3) 6 =
        seen ++ [(.stopped, h₁)] ∧ ∀ x ∈ seen, ¬ x.1.isFinal :=
    Host.exists_of_endsStopped (by decide +kernel)
  refine ⟨seen, h₁, hstop, hgoes, fun told => ?_⟩
  exact programs_concatenate (fun _ => 0.5) tracedSession [['1']] rfl (by decide +kernel)
    (by decide) hstop hgoes (fun _ => Nat.one_pos) (fun i => Nat.succ_pos i) told

end TwinTape
