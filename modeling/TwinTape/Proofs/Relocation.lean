import TwinTape.Proofs.Isolation
import TwinTape.Proofs.Untraced
import TwinTape.Proofs.Walks

/-! # Programs inside other programs

A program `p` has the instruction of another one, with the same jump, `offset` addresses further on:
`Program.Hosts p q offset a`.  A machine that is about to execute the instruction at `a` of `q` can
then be moved into `p` (`Machine.relocate`): its counter, the brackets it has entered and the
addresses it reports grow by `offset`, and brackets of `p` that stand before may have been entered
too.  The machine takes the same step there, but that a fault has another place (`step_relocate`),
and as long as both programs end at the same time the host sees the same (`tickCourse_relocate`). -/

namespace TwinTape

theorem Program.length_instructions (p : Program) : p.instructions.length = p.size :=
  List.length_map _

theorem Program.unmatched_eq (p : Program) :
    p.jumps.unmatched = (JumpTable.ofInstructions p.instructions).unmatched := by
  rw [p.jumps_eq]
  rfl

/-- The instruction at `a` of `q` is found in `p` at an address greater by `offset`, and so is the
partner of a bracket. -/
structure Program.Hosts (p q : Program) (offset a : ℕ) : Prop where
  instruction : p.instruction? (a + offset) = q.instruction? a
  target : p.jumps.target? (a + offset) = (q.jumps.target? a).map (· + offset)

/-- A report of an address that is greater by `offset`. -/
def Notice.relocate (offset : ℕ) : Notice → Notice
  | .trace a => .trace (a + offset)
  | n => n

/-- The event as a program tells it that has `offset` more instructions in front, without the place
of a fault. -/
def Event.relocate (offset : ℕ) : Event → Event
  | .notice (.trace a) => .notice (.trace (a + offset))
  | .notice (.fault f) => .notice (.fault { kind := f.kind, note := f.note })
  | e => e

theorem Event.eq_input_of_relocate {offset offset' : ℕ} {e : Event} {medium : Medium}
    (h : e.relocate offset = (Event.input medium).relocate offset') : e = .input medium := by
  match e with
  | .stopped | .running | .input _ => exact h
  | .notice (.trace _) | .notice (.fault _) | .notice (.print _) | .notice (.warning _) =>
      exact absurd h (by simp [Event.relocate])

/-! ### Brackets entered -/

section entered
variable {xs past : List ℕ} {offset : ℕ}

theorem mem_relocated (hpast : ∀ x ∈ past, x < offset) (a : ℕ) :
    a + offset ∈ xs.map (· + offset) ++ past ↔ a ∈ xs := by
  have hnot : a + offset ∉ past := by
    intro hmem
    have := hpast _ hmem
    omega
  simp [hnot]

theorem insert_relocated (hpast : ∀ x ∈ past, x < offset) (a : ℕ) :
    (xs.map (· + offset) ++ past).insert (a + offset) =
      (xs.insert a).map (· + offset) ++ past := by
  by_cases ha : a ∈ xs
  · rw [List.insert_of_mem ((mem_relocated hpast a).2 ha), List.insert_of_mem ha]
  · rw [List.insert_of_not_mem (mt (mem_relocated hpast a).1 ha), List.insert_of_not_mem ha]
    rfl

theorem erase_relocated (hpast : ∀ x ∈ past, x < offset) (a : ℕ) :
    (xs.map (· + offset) ++ past).erase (a + offset) =
      (xs.erase a).map (· + offset) ++ past := by
  have hinj : Function.Injective fun x : ℕ => x + offset := fun x y h => Nat.add_right_cancel h
  by_cases ha : a ∈ xs
  · rw [List.erase_append_left _ (List.mem_map_of_mem ha), List.map_erase hinj]
  · rw [List.erase_of_not_mem (mt (mem_relocated hpast a).1 ha), List.erase_of_not_mem ha]

end entered

namespace Machine
variable {draws : Draws} {m : Machine} {p : Program} {offset : ℕ} {past : List ℕ}

/-- The machine in the program `p`, `offset` addresses further on, after the brackets `past` have
been entered. -/
def relocate (p : Program) (offset : ℕ) (past : List ℕ) (m : Machine) : Machine :=
  { m with
    program := p
    counter := m.counter + offset
    entered := m.entered.map (· + offset) ++ past
    queue := m.queue.map (Notice.relocate offset) }

theorem relocate_zero (p : Program) (m : Machine) :
    m.relocate p 0 [] = { m with program := p } := by
  have hqueue : m.queue.map (Notice.relocate 0) = m.queue := by
    refine (List.map_congr_left fun n _ => ?_).trans (List.map_id _)
    cases n <;> rfl
  simp [relocate, hqueue]

/-! ### Steps -/

theorem congruence_relocate (draws : Draws) (p : Program) (hpast : ∀ x ∈ past, x < offset) :
    Congruence draws draws (fun _ => True) offset (fun m m' => m' = m.relocate p offset past) where
  phase := by rintro m _ rfl; rfl
  counter := by rintro m _ rfl; rfl
  memory := by rintro m _ s rfl -; cases s <;> rfl
  draw := by rintro m _ rfl; rfl
  entered := by rintro m _ s rfl -; exact mem_relocated hpast m.counter
  setPhase := by rintro m _ rfl p; rfl
  goto := by rintro m _ rfl a; rfl
  setMemory := by rintro m _ s rfl - x; cases s <;> rfl
  setDrawn := by rintro m _ rfl; rfl
  push := by
    rintro m _ rfl n hn
    cases n with
    | trace a => simp [Notice.address?] at hn
    | print | warning | fault => simp [push, relocate, Notice.relocate]
  mark := by rintro m _ rfl; simp [markEntered, relocate, insert_relocated hpast]
  unmark := by rintro m _ rfl; simp [unmarkEntered, relocate, erase_relocated hpast]

theorem stepInstruction_relocate (draws : Draws) (hpast : ∀ x ∈ past, x < offset)
    (htarget : p.jumps.target? (m.counter + offset) =
      (m.program.jumps.target? m.counter).map (· + offset)) {i : Instruction}
    (hi : m.program.instruction? m.counter = some i) :
    stepInstruction draws (m.relocate p offset past) i =
      mapResult (relocate p offset past) (stepInstruction draws m i) :=
  ((congruence_relocate draws p hpast).stepInstruction rfl htarget hi trivial
    fun _ _ => trivial).eq_mapResult

/-- A step in the other program is the same, but that a fault has another place. -/
theorem step_relocate (draws : Draws) (hpast : ∀ x ∈ past, x < offset)
    (hhosts : p.Hosts m.program offset m.counter) (hc : m.counter < m.program.size) :
    (m.relocate p offset past).step draws =
      (mapResult (relocate p offset past) (m.step draws)).mapError
        (·.located (p.position (m.counter + offset))) := by
  obtain ⟨i, hi⟩ := Program.exists_instruction? hc
  have hi' : (m.relocate p offset past).program.instruction?
      (m.relocate p offset past).counter = some i := hhosts.instruction.trans hi
  rw [step_of_instruction hi, step_of_instruction hi',
    stepInstruction_relocate draws hpast hhosts.target hi]
  cases stepInstruction draws m i <;> rfl

theorem enter_relocate (hpast : ∀ x ∈ past, x < offset) (m : Machine) (line : List Char) :
    ((m.relocate p offset past).enter line).2 = (m.enter line).2.relocate p offset past :=
  ((congruence_relocate (fun _ => 0) p hpast).enter rfl line).2

/-! ### Ticks -/

theorem traced_relocate (m : Machine) (p : Program) (offset : ℕ) (past : List ℕ) (a : ℕ) :
    (m.relocate p offset past).traced (a + offset) = (m.traced a).relocate p offset past := by
  have hphase : (m.relocate p offset past).phase = m.phase := rfl
  have htracing : (m.relocate p offset past).tracing = m.tracing := rfl
  unfold traced
  rw [hphase, htracing]
  split
  · rfl
  · split
    · simp [push, relocate, Notice.relocate]
    · rfl

theorem active_relocate (m : Machine) (p : Program) (offset : ℕ) (past : List ℕ) :
    (m.relocate p offset past).Active ↔ m.Active := by
  constructor
  · rintro ⟨hq, hi, hr⟩
    exact ⟨List.map_eq_nil_iff.1 hq, hi, hr⟩
  · rintro ⟨hq, hi, hr⟩
    exact ⟨List.map_eq_nil_iff.2 hq, hi, hr⟩

/-- The programs end at the same time, if the machine does not have something to tell before. -/
def EndsWith (m : Machine) (p : Program) (offset : ℕ) : Prop :=
  m.Active → (p.size ≤ m.counter + offset ↔ m.program.size ≤ m.counter)

/-- A tick in the other program tells the same and leads to the same, relocated. -/
theorem tick_relocate (draws : Draws) (hpast : ∀ x ∈ past, x < offset)
    (hhosts : m.counter < m.program.size → p.Hosts m.program offset m.counter)
    (hend : m.EndsWith p offset) :
    ((m.relocate p offset past).tick draws).1.map (Event.relocate 0) =
      (m.tick draws).1.map (Event.relocate offset) ∧
    ((m.relocate p offset past).tick draws).2 = (m.tick draws).2.relocate p offset past := by
  by_cases ha : m.Active
  · rw [((active_relocate m p offset past).2 ha).tick_eq, ha.tick_eq]
    by_cases hc : m.program.size ≤ m.counter
    · have hc' : (m.relocate p offset past).program.size ≤
          (m.relocate p offset past).counter := (hend ha).2 hc
      rw [if_pos hc, if_pos hc']
      exact ⟨rfl, rfl⟩
    · have hc' : ¬ (m.relocate p offset past).program.size ≤
          (m.relocate p offset past).counter := mt (hend ha).1 hc
      have hlt : m.counter < m.program.size := by omega
      rw [if_neg hc, if_neg hc', step_relocate draws hpast (hhosts hlt) hlt]
      cases m.step draws with
      | error fault => exact ⟨rfl, rfl⟩
      | ok next =>
          obtain ⟨next, _ | medium⟩ := next
          · exact ⟨rfl, traced_relocate next p offset past m.counter⟩
          · exact ⟨rfl, rfl⟩
  · have hempty : m.queue = [] → (m.relocate p offset past).queue = [] := List.map_eq_nil_iff.2
    rcases cases_of_not_active ha with ⟨n, queue, hq⟩ | ⟨hq, hi⟩ | ⟨hq, hi, hr⟩
    · have hq' : (m.relocate p offset past).queue =
          n.relocate offset :: queue.map (Notice.relocate offset) := by
        simp [relocate, hq]
      rw [tick_of_queue hq, tick_of_queue hq']
      refine ⟨?_, rfl⟩
      cases n <;> rfl
    · rw [tick_of_interrupted hq hi, tick_of_interrupted (hempty hq) hi]
      exact ⟨rfl, rfl⟩
    · rw [tick_of_idle hq hi hr, tick_of_idle (hempty hq) hi hr]
      exact ⟨rfl, rfl⟩

end Machine

/-! ### Hosts -/

namespace Host
variable {draws : Draws} {h : Host} {p : Program} {offset : ℕ} {past : List ℕ}

/-- The host of the machine in the other program. -/
def relocate (p : Program) (offset : ℕ) (past : List ℕ) (h : Host) : Host :=
  ⟨h.machine.relocate p offset past, h.lines⟩

theorem store_relocate (h : Host) : (h.relocate p offset past).store = h.store := rfl

theorem receive_of_not_input {e : Event} (he : ¬ ∃ medium, e = .input medium) (m : Machine)
    (lines : List (List Char)) : receive e m lines = ⟨m, lines⟩ := by
  cases e with
  | input medium => exact absurd ⟨medium, rfl⟩ he
  | stopped | running | notice => rfl

theorem receive_relocate (hpast : ∀ x ∈ past, x < offset) {e e' : Event}
    (he : e'.relocate 0 = e.relocate offset) (m : Machine) (lines : List (List Char)) :
    receive e' (m.relocate p offset past) lines = (receive e m lines).relocate p offset past := by
  by_cases hi : ∃ medium, e = .input medium
  · obtain ⟨medium, rfl⟩ := hi
    obtain rfl : e' = .input medium := Event.eq_input_of_relocate he
    cases lines with
    | nil => rfl
    | cons line lines =>
        simp only [receive, Machine.enter_relocate hpast]
        rfl
  · have hi' : ¬ ∃ medium, e' = .input medium := by
      rintro ⟨medium, rfl⟩
      exact hi ⟨medium, Event.eq_input_of_relocate he.symm⟩
    rw [receive_of_not_input hi, receive_of_not_input hi']
    rfl

theorem tick_relocate (draws : Draws) (hpast : ∀ x ∈ past, x < offset)
    (hhosts : h.machine.counter < h.machine.program.size →
      p.Hosts h.machine.program offset h.machine.counter)
    (hend : h.machine.EndsWith p offset) :
    ((h.relocate p offset past).tick draws).1.map (Event.relocate 0) =
      (h.tick draws).1.map (Event.relocate offset) ∧
    ((h.relocate p offset past).tick draws).2 = (h.tick draws).2.relocate p offset past := by
  obtain ⟨hevent, hnext⟩ := Machine.tick_relocate draws hpast hhosts hend
  have hmachine : (h.relocate p offset past).machine = h.machine.relocate p offset past := rfl
  unfold tick
  rw [hmachine]
  rcases ht : h.machine.tick draws with ⟨_ | e, m⟩ <;>
    rcases ht' : (h.machine.relocate p offset past).tick draws with ⟨_ | e', m'⟩ <;>
    rw [ht, ht'] at hevent hnext <;> simp only [Option.map_none, Option.map_some] at hevent hnext
  · subst hnext
    exact ⟨rfl, rfl⟩
  · simp at hevent
  · simp at hevent
  · subst hnext
    refine ⟨hevent, ?_⟩
    exact receive_relocate hpast (Option.some.inj hevent) m h.lines

theorem program_tick (draws : Draws) (h : Host) :
    (h.tick draws).2.machine.program = h.machine.program := by
  have hprogram := Machine.program_tick draws h.machine
  unfold tick
  rcases ht : h.machine.tick draws with ⟨_ | e, m⟩ <;> rw [ht] at hprogram
  · exact hprogram
  · dsimp only [receive]
    split
    · exact (Machine.program_enter _ _).trans hprogram
    · exact hprogram

theorem program_tickCourse (draws : Draws) (k : ℕ) (h : Host) :
    (h.tickCourse draws k).2.machine.program = h.machine.program := by
  induction k generalizing h with
  | zero => rfl
  | succ k ih => exact (ih _).trans (program_tick draws h)

/-! ### What is heard -/

/-- Events as a program tells them that has `offset` more instructions in front, without the
places of faults; each with the store after it. -/
def outcomes (offset : ℕ) (xs : List (Event × Host)) : List (Event × Store) :=
  xs.map fun (e, h) => (e.relocate offset, h.store)

@[simp] theorem outcomes_append (offset : ℕ) (xs ys : List (Event × Host)) :
    outcomes offset (xs ++ ys) = outcomes offset xs ++ outcomes offset ys := List.map_append

theorem outcomes_toList (offset : ℕ) (o : Option Event) (h : Host) :
    outcomes offset (o.map fun e => (e, h)).toList =
      ((o.map (Event.relocate offset)).map fun e => (e, h.store)).toList := by
  cases o <;> rfl

/-- **The same is heard in the other program**, as long as both programs end at the same time. -/
theorem tickCourse_relocate (draws : Draws) (hpast : ∀ x ∈ past, x < offset)
    (hhosts : ∀ a < h.machine.program.size, p.Hosts h.machine.program offset a) {k : ℕ}
    (hend : ∀ j < k, (h.tickCourse draws j).2.machine.EndsWith p offset) :
    outcomes 0 (Moment.events ((h.relocate p offset past).tickCourse draws k).1) =
      outcomes offset (Moment.events (h.tickCourse draws k).1) ∧
    ((h.relocate p offset past).tickCourse draws k).2 =
      (h.tickCourse draws k).2.relocate p offset past := by
  induction k with
  | zero => exact ⟨rfl, rfl⟩
  | succ k ih =>
      obtain ⟨hevents, hlast⟩ := ih fun j hj => hend j (by omega)
      have hprogram := program_tickCourse draws k h
      have htick := tick_relocate draws hpast
        (fun hc => hprogram ▸ hhosts _ (hprogram ▸ hc)) (hend k (by omega))
      rw [tickCourse_add, tickCourse_add, tickCourse_one, tickCourse_one, hlast]
      refine ⟨?_, htick.2⟩
      rw [Moment.events_append, Moment.events_append, outcomes_append, outcomes_append, hevents,
        events_tickMoments, events_tickMoments, outcomes_toList, outcomes_toList, htick.1, htick.2,
        store_relocate]

end Host
end TwinTape
