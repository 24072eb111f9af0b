import TwinTape.Proofs.Entered
import TwinTape.Proofs.Failures
import TwinTape.Proofs.Relocation

/-! # Brackets without a partner

A run fails at a bracket without a partner exactly when it comes to one, whatever the cells are and
whichever way the bracket would have gone (`unmatched_fails_exactly`).

The table of a program lists these brackets and gives all others a target
(`mem_unmatched_iff_target?`).  So a step fails for the lack of a partner if and only if the address
is in the list (`step_of_unmatched`, `mem_unmatched_of_step`).  A call comes to a machine if it
would have come to the end of a smaller budget there, so a call fails in this way if and only if it
comes to such an address with budget left.

What the list says does not matter before that.  A program that has other instructions in the place
of these brackets has the same jumps (`Mends.target?_eq`) and is run in the same way
(`Machine.execute_of_mends`). -/

namespace TwinTape

/-! ### The list and the targets -/

/-- A bracket is unmatched or has a target, and not both. -/
theorem JumpTable.mem_unmatched_iff_target? {is : List Instruction} {a : ℕ} :
    a ∈ (ofInstructions is).unmatched ↔
      (∃ k s, bracketAt is a = some (k, s)) ∧ (ofInstructions is).target? a = none := by
  rw [mem_unmatched_iff, Option.eq_none_iff_forall_ne_some]
  constructor
  · rintro ⟨k, s, hb, hno⟩
    refine ⟨⟨k, s, hb⟩, fun b hab => ?_⟩
    obtain ⟨k', hab⟩ := target?_eq_some_iff.1 hab
    have hk : k' = k := by
      cases hab with
      | inl hab =>
          have hopening := hb.symm.trans hab.opening
          simp_all
      | inr hab =>
          have hclosing := hb.symm.trans hab.closing
          simp_all
    exact hno b (hk ▸ hab)
  · rintro ⟨⟨k, s, hb⟩, hno⟩
    exact ⟨k, s, hb, fun b hab => hno b (target?_eq_some_iff.2 ⟨k, hab⟩)⟩

namespace Program
variable {p : Program} {a : ℕ}

theorem mem_unmatched_iff_target? : a ∈ p.jumps.unmatched ↔
    (∃ k s, bracketAt p.instructions a = some (k, s)) ∧ p.jumps.target? a = none := by
  rw [unmatched_eq, target?_eq]
  exact JumpTable.mem_unmatched_iff_target?

theorem bracketAt_of_instruction? {i : Instruction} (hi : p.instruction? a = some i) :
    bracketAt p.instructions a = i.bracket? := by
  rw [instruction?_eq] at hi
  simp [bracketAt, hi]

/-- The target of a bracket is the other end of a loop of the same kind. -/
theorem partner_of_target? {b : ℕ} {k : Loop.Kind} {s : Loop.Side}
    (ht : p.jumps.target? a = some b) (hb : bracketAt p.instructions a = some (k, s)) :
    (a, b) ∈ p.jumps.jumps k ∧ (∃ t, bracketAt p.instructions b = some (k, t) ∧ t ≠ s) ∧
      b < p.size := by
  have hlt := Machine.target?_lt_size ht
  rw [target?_eq, JumpTable.target?_eq_some_iff] at ht
  obtain ⟨k', hab⟩ := ht
  have hjump : ∀ {k}, Encloses p.instructions k a b ∨ Encloses p.instructions k b a →
      (a, b) ∈ p.jumps.jumps k := by
    intro k h
    rw [p.jumps_eq]
    exact JumpTable.mem_jumps_iff.2 h
  cases hab with
  | inl hab =>
      rw [hab.opening] at hb
      cases hb
      exact ⟨hjump (.inl hab), ⟨.closing, hab.closing, by decide⟩, hlt⟩
  | inr hab =>
      rw [hab.closing] at hb
      cases hb
      exact ⟨hjump (.inr hab), ⟨.opening, hab.opening, by decide⟩, hlt⟩

/-- The fault of the bracket at an address without a partner. -/
def unmatchedFault (p : Program) (a : ℕ) : Fault :=
  { kind := .unmatchedBracket, position := some (p.position a) }

end Program

/-! ### Steps -/

namespace Machine
variable {draws : Draws} {m next x : Machine} {wait : Option Medium} {fault : Fault} {budget k : ℕ}

/-- A bracket without a partner fails, whatever the cells are. -/
theorem step_of_unmatched (draws : Draws) (h : m.counter ∈ m.program.jumps.unmatched) :
    m.step draws = .error (m.program.unmatchedFault m.counter) := by
  obtain ⟨⟨k, s, hb⟩, hnone⟩ := Program.mem_unmatched_iff_target?.1 h
  obtain ⟨i, hi⟩ : ∃ i, m.program.instruction? m.counter = some i := by
    obtain ⟨i, hi, _⟩ := Option.bind_eq_some_iff.1 hb
    exact ⟨i, (instruction?_eq ..).trans hi⟩
  rw [Program.bracketAt_of_instruction? hi] at hb
  rw [step_of_instruction hi]
  cases i with
  | act | swap => simp [Instruction.bracket?] at hb
  | perform scope o =>
      cases o with
      | opening form | closing form =>
          simp only [stepInstruction, stepOperation, stepBracket, hnone]
          rfl
      | _ => simp [Instruction.bracket?] at hb

/-- Only a bracket without a partner fails for the lack of one. -/
theorem mem_unmatched_of_step (hc : m.counter < m.program.size)
    (h : m.step draws = .error fault) (hkind : fault.kind = .unmatchedBracket) :
    m.counter ∈ m.program.jumps.unmatched := by
  obtain ⟨i, cause, hi, hs, rfl⟩ := stepInstruction_of_error hc h
  have hcause : cause.kind = .unmatchedBracket := hkind
  rcases (refuses_of_error hs).kind with hvalue | ⟨_, ⟨⟨k, s⟩, hb⟩, hnone⟩
  · rw [hcause] at hvalue
    exact absurd hvalue (by decide)
  · exact Program.mem_unmatched_iff_target?.2
      ⟨⟨k, s, (Program.bracketAt_of_instruction? hi).trans hb⟩, hnone⟩

/-- How a step moves the counter. -/
structure Moves (m next : Machine) : Prop where
  /-- An instruction that is no bracket is gone on with, or the next one follows. -/
  plain : bracketAt m.program.instructions m.counter = none →
    next.counter = m.counter ∨ next.counter = m.counter + 1
  /-- A bracket is followed by the next instruction, or by the one after its partner, which is the
  other end of a loop of the same kind. -/
  bracket : ∀ k s, bracketAt m.program.instructions m.counter = some (k, s) →
    ∃ b t, (m.counter, b) ∈ m.program.jumps.jumps k ∧
      bracketAt m.program.instructions b = some (k, t) ∧ t ≠ s ∧ b + 1 ≤ m.program.size ∧
      (next.counter = m.counter + 1 ∨ next.counter = b + 1)

theorem moves_of_plain {i : Instruction} (hi : m.program.instruction? m.counter = some i)
    (hb : i.bracket? = none) (hc : next.counter = m.counter ∨ next.counter = m.counter + 1) :
    m.Moves next := by
  have hnone := (Program.bracketAt_of_instruction? hi).trans hb
  exact ⟨fun _ => hc, fun k s h => by rw [hnone] at h; contradiction⟩

theorem moves_of_bracket {i : Instruction} {b : Loop.Kind × Loop.Side} {target : ℕ}
    (hi : m.program.instruction? m.counter = some i) (hb : i.bracket? = some b)
    (ht : m.program.jumps.target? m.counter = some target)
    (hc : next.counter = m.counter + 1 ∨ next.counter = target + 1) : m.Moves next := by
  have hsome := (Program.bracketAt_of_instruction? hi).trans hb
  refine ⟨fun h => by rw [hsome] at h; contradiction, fun k s h => ?_⟩
  obtain ⟨hjump, ⟨t, htarget, hne⟩, hlt⟩ := Program.partner_of_target? ht h
  exact ⟨target, t, hjump, htarget, hne, hlt, hc⟩

theorem Steps.moves (hs : Steps draws m next wait) : m.Moves next := by
  cases hs with
  | @burst s times a r hi _ =>
      refine moves_of_plain hi rfl ?_
      rw [repeatBurst_eq]
      dsimp only
      split
      · exact .inl rfl
      · exact .inr rfl
  | opening hi ht =>
      refine moves_of_bracket hi rfl ht ?_
      rw [stepOpening_eq]
      dsimp only
      split
      · exact .inr rfl
      · exact .inl rfl
  | closing hi ht =>
      refine moves_of_bracket hi rfl ht ?_
      rw [stepClosing_eq]
      dsimp only
      split
      · exact .inl rfl
      · exact .inr rfl
  | ask hi => exact moves_of_plain hi rfl (.inl rfl)
  | random hi | switchTape hi | output hi | input hi | reserved hi | swap hi =>
      exact moves_of_plain hi rfl (.inr (by simp [advance, goto, push, swapCells]))

/-! ### Calls -/

theorem active_of_running (h : m.execute draws k = (.running, x)) : x.Active := by
  induction k generalizing m with
  | zero =>
      by_cases ha : m.Active
      · rw [ha.execute_zero] at h
        cases h
        exact ha
      · obtain ⟨e, ht, he⟩ := execute_of_not_active draws ha 0
        rw [h] at he
        refine absurd ?_ (tick_ne_running draws m)
        rw [ht, ← he]
  | succ k ih =>
      rw [execute_succ] at h
      rcases ht : m.tick draws with ⟨_ | e, next⟩
      · rw [ht] at h
        exact ih h
      · rw [ht] at h
        cases h
        refine absurd ?_ (tick_ne_running draws m)
        rw [ht]

theorem program_of_running (h : m.execute draws k = (.running, x)) : x.program = m.program := by
  have hprogram := program_execute draws k m
  rwa [h] at hprogram

/-- A call comes to every machine that takes a step in it. -/
theorem exists_running_of_mem_steps (hx : x ∈ (m.executeLogged draws budget).1) :
    ∃ k < budget, m.execute draws k = (.running, x) := by
  induction budget generalizing m with
  | zero =>
      by_cases ha : m.Active
      · rw [ha.executeLogged_eq] at hx
        exact absurd hx List.not_mem_nil
      · rw [steps_of_not_active ha] at hx
        exact absurd hx List.not_mem_nil
  | succ budget ih =>
      rw [steps_executeLogged_succ, List.mem_append] at hx
      rcases hx with hx | hx
      · by_cases hs : m.isStepping = true
        · rw [if_pos hs, List.mem_singleton] at hx
          subst hx
          exact ⟨0, by omega, (isStepping_iff.1 hs).1.execute_zero⟩
        · rw [if_neg hs] at hx
          exact absurd hx List.not_mem_nil
      · rcases ht : m.tick draws with ⟨_ | e, next⟩ <;> rw [ht] at hx
        · obtain ⟨k, hk, hrun⟩ := ih hx
          exact ⟨k + 1, by omega, by rw [execute_succ, ht]; exact hrun⟩
        · exact absurd hx List.not_mem_nil

/-- A call that comes to a bracket without a partner fails there. -/
theorem execute_of_unmatched (hx : m.execute draws k = (.running, x))
    (hmem : x.counter ∈ m.program.jumps.unmatched) (hk : k < budget) :
    m.execute draws budget =
      (.notice (.fault ((m.program.unmatchedFault x.counter).inSource m.program.source)),
        { x.stop with queue := [] }) := by
  obtain ⟨left, rfl⟩ : ∃ left, budget = k + (left + 1) := ⟨budget - k - 1, by omega⟩
  have ha := active_of_running hx
  have hprogram := program_of_running hx
  rw [← hprogram] at hmem ⊢
  have hlt : ¬ x.program.size ≤ x.counter := by
    obtain ⟨⟨_, _, hb⟩, _⟩ := Program.mem_unmatched_iff_target?.1 hmem
    have := lt_length_of_bracketAt hb
    rw [Program.length_instructions] at this
    omega
  rw [execute_add (left + 1) hx, execute_succ, ha.tick_eq, if_neg hlt, step_of_unmatched draws hmem]

end Machine

/-! ### Other instructions in the place of unmatched brackets -/

section mended
variable {is js : List Instruction} {k : Loop.Kind} {s : Loop.Side} {o c a n : ℕ}

theorem Encloses.not_mem_unmatched (h : Encloses is k o c) (hb : bracketAt is a = some (k, s))
    (ho : o ≤ a) (hc : a ≤ c) : a ∉ (JumpTable.ofInstructions is).unmatched := by
  intro hmem
  obtain ⟨k', s', hb', hno⟩ := JumpTable.mem_unmatched_iff.1 hmem
  rw [hb] at hb'
  cases hb'
  obtain ⟨_, hopen, hclose, hback, habove⟩ := encloses_iff_height.1 h
  cases s with
  | opening =>
      have hne : a ≠ c := by
        rintro rfl
        simp [hclose] at hb
      have hlow : height is k (c + 1) ≤ height is k a := by
        rcases Nat.eq_or_lt_of_le ho with rfl | ho
        · omega
        · have := habove a ho hc
          omega
      obtain ⟨b, _, hab⟩ := exists_encloses_of_low hb (by omega) hlow
      exact hno b (.inl hab)
  | closing =>
      have hhigh : height is k o ≤ height is k (a + 1) := by
        rcases Nat.eq_or_lt_of_le hc with rfl | hc
        · omega
        · have := habove (a + 1) (by omega) (by omega)
          omega
      obtain ⟨b, hab⟩ := exists_encloses_of_high hb ho hhigh
      exact hno b (.inr hab)

theorem height_sub_height (hn : o ≤ n)
    (h : ∀ a, o ≤ a → a < n → rise js k a = rise is k a) :
    height js k n - height js k o = height is k n - height is k o := by
  induction n, hn using Nat.le_induction with
  | base => omega
  | succ n hn ih =>
      have hbefore := ih fun a ho ha => h a ho (by omega)
      have hrise := h n hn (by omega)
      have his := height_succ is k n
      have hjs := height_succ js k n
      omega

/-- In the place of the unmatched brackets of `is`, and only there, `js` has other instructions,
none of which is a bracket. -/
structure Mends (js is : List Instruction) : Prop where
  length : js.length = is.length
  same : ∀ a, a ∉ (JumpTable.ofInstructions is).unmatched → js[a]? = is[a]?
  plain : ∀ a ∈ (JumpTable.ofInstructions is).unmatched, bracketAt js a = none

theorem Mends.bracketAt_eq (h : Mends js is) (ha : a ∉ (JumpTable.ofInstructions is).unmatched) :
    bracketAt js a = bracketAt is a := by
  unfold bracketAt
  rw [h.same a ha]

theorem Mends.rise_eq (h : Mends js is) (he : Encloses is k o c) (ho : o ≤ a) (hc : a ≤ c) :
    rise js k a = rise is k a := by
  by_cases ha : a ∈ (JumpTable.ofInstructions is).unmatched
  · have hnone := rise_of_none (k := k) (h.plain a ha)
    obtain ⟨k', s, hb, _⟩ := JumpTable.mem_unmatched_iff.1 ha
    have hne : k' ≠ k := by
      rintro rfl
      exact he.not_mem_unmatched hb ho hc ha
    rw [hnone]
    cases s <;> simp [rise, hb, hne]
  · unfold rise
    rw [h.bracketAt_eq ha]

theorem Mends.encloses (h : Mends js is) (he : Encloses is k o c) : Encloses js k o c := by
  obtain ⟨hlt, hopen, hclose, hback, habove⟩ := encloses_iff_height.1 he
  have hsub : ∀ i, o ≤ i → i ≤ c + 1 →
      height js k i - height js k o = height is k i - height is k o := by
    intro i hi hic
    exact height_sub_height hi fun a ho ha => h.rise_eq he ho (by omega)
  refine encloses_iff_height.2 ⟨hlt, ?_, ?_, ?_, ?_⟩
  · rw [h.bracketAt_eq (he.not_mem_unmatched hopen le_rfl hlt.le)]
    exact hopen
  · rw [h.bracketAt_eq (he.not_mem_unmatched hclose hlt.le le_rfl)]
    exact hclose
  · have := hsub (c + 1) (by omega) le_rfl
    omega
  · intro i hi hic
    have := hsub i hi.le (by omega)
    have := habove i hi hic
    omega

theorem Mends.target?_eq (h : Mends js is) (a : ℕ) :
    (JumpTable.ofInstructions js).target? a = (JumpTable.ofInstructions is).target? a := by
  ext b
  rw [JumpTable.target?_eq_some_iff, JumpTable.target?_eq_some_iff]
  constructor
  · rintro ⟨k, hab⟩
    obtain ⟨s, hb⟩ : ∃ s, bracketAt js a = some (k, s) := by
      cases hab with
      | inl hab => exact ⟨_, hab.opening⟩
      | inr hab => exact ⟨_, hab.closing⟩
    have ha : a ∉ (JumpTable.ofInstructions is).unmatched := by
      intro ha
      rw [h.plain a ha] at hb
      contradiction
    rw [h.bracketAt_eq ha] at hb
    obtain ⟨b', hb'⟩ := JumpTable.exists_partner ha hb
    obtain rfl := JumpTable.partner_unique hab (hb'.imp h.encloses h.encloses)
    exact ⟨k, hb'⟩
  · rintro ⟨k, hab⟩
    exact ⟨k, hab.imp h.encloses h.encloses⟩

end mended

/-- The program `q` is `p` with other instructions in the place of unmatched brackets, none of which
is a bracket. -/
structure Program.Mends (q p : Program) : Prop where
  instructions : TwinTape.Mends q.instructions p.instructions
  source : q.source = p.source
  position : ∀ a, q.position a = p.position a

theorem Program.Mends.hosts {p q : Program} (h : q.Mends p) {a : ℕ}
    (ha : a ∉ p.jumps.unmatched) : q.Hosts p 0 a := by
  rw [unmatched_eq] at ha
  constructor
  · rw [instruction?_eq, instruction?_eq]
    exact h.instructions.same a ha
  · rw [TwinTape.target?_eq, TwinTape.target?_eq, Nat.add_zero, h.instructions.target?_eq]
    simp

/-! ### Machines with another program -/

/-- Events of two machines whose programs are named `a` and `b`: only a fault can tell them
apart. -/
inductive Event.Renamed (a b : String) : Event → Event → Prop
  | same (e : Event) : Renamed a b e e
  | fault (f : Fault) :
      Renamed a b (.notice (.fault (f.inSource a))) (.notice (.fault (f.inSource b)))

theorem Event.Renamed.eq {a : String} {e e' : Event} (h : Renamed a a e e') : e' = e := by
  cases h with
  | same => rfl
  | fault => rfl

namespace Machine
variable {draws : Draws} {m : Machine} {q : Program} {budget : ℕ}

/-- The machine with another program. -/
def withProgram (q : Program) (m : Machine) : Machine := { m with program := q }

/-- With the program `q` the machine takes the same step. -/
def SameStep (draws : Draws) (q : Program) (m : Machine) : Prop :=
  (m.withProgram q).step draws =
    (m.step draws).map fun (next, wait) => (next.withProgram q, wait)

theorem queue_traced_withProgram (q : Program) (m : Machine) (a : ℕ) :
    ((m.withProgram q).traced a).queue = (m.traced a).queue := by
  have htraced := traced_relocate m q 0 [] a
  rw [relocate_zero, relocate_zero, Nat.add_zero] at htraced
  rw [withProgram, htraced]

/-- With a program of the same size a machine runs in the same way, but for the name of the program,
if it takes the same steps. -/
theorem run_renamed (hsize : q.size = m.program.size)
    (hsteps : ∀ x ∈ (m.runLogged draws budget).1, x.program = m.program →
      x.counter < x.program.size → x.SameStep draws q) :
    Event.Renamed m.program.source q.source (m.run draws budget).1
        ((m.withProgram q).run draws budget).1 ∧
      ((m.withProgram q).run draws budget).2 = (m.run draws budget).2.withProgram q := by
  induction budget generalizing m with
  | zero => exact ⟨.same _, rfl⟩
  | succ budget ih =>
      rw [run, run]
      rw [runLogged] at hsteps
      by_cases hc : m.program.size ≤ m.counter
      · have hc' : (m.withProgram q).program.size ≤ (m.withProgram q).counter := hsize ▸ hc
        rw [if_pos hc, if_pos hc']
        exact ⟨.same _, rfl⟩
      · have hc' : ¬ (m.withProgram q).program.size ≤ (m.withProgram q).counter := hsize ▸ hc
        rw [if_neg hc] at hsteps ⊢
        rw [if_neg hc']
        have hstep : m.SameStep draws q := by
          refine hsteps m ?_ rfl (by omega)
          split
          · exact List.mem_cons_self
          · exact List.mem_cons_self
          · split <;> exact List.mem_cons_self
        rw [hstep]
        cases hs : m.step draws with
        | error fault => exact ⟨.fault fault, rfl⟩
        | ok result =>
            obtain ⟨next, _ | medium⟩ := result
            · have hcounter : (m.withProgram q).counter = m.counter := rfl
              simp only [Except.map, hcounter, queue_traced_withProgram]
              rw [hs] at hsteps
              have hprogram := (step_eq_ok_iff.1 hs).frame.1
              cases hq : (next.traced m.counter).queue with
              | cons n queue => exact ⟨.same _, rfl⟩
              | nil =>
                  simp only [hq] at hsteps
                  rw [← hprogram]
                  apply ih (hprogram ▸ hsize)
                  intro x hx hxp
                  exact hsteps x (List.mem_cons_of_mem _ hx) (hxp.trans hprogram)
            · exact ⟨.same _, rfl⟩

/-- A call is answered in the same way, but for the name of the program, with a program whose
instructions have the same places, if the machine takes the same steps. -/
theorem execute_renamed (hsize : q.size = m.program.size)
    (hposition : ∀ a, q.position a = m.program.position a)
    (hsteps : ∀ x ∈ (m.executeLogged draws budget).1, x.program = m.program →
      x.counter < x.program.size → x.SameStep draws q) :
    Event.Renamed m.program.source q.source (m.execute draws budget).1
        ((m.withProgram q).execute draws budget).1 ∧
      ((m.withProgram q).execute draws budget).2 = (m.execute draws budget).2.withProgram q := by
  by_cases ha : m.Active
  · have ha' : (m.withProgram q).Active := ⟨ha.queue, ha.interrupted, ha.running⟩
    rw [ha'.execute_eq, ha.execute_eq]
    rw [ha.executeLogged_eq] at hsteps
    exact run_renamed hsize hsteps
  · have ha' : ¬ (m.withProgram q).Active := fun h => ha ⟨h.queue, h.interrupted, h.running⟩
    rcases cases_of_not_active ha with ⟨n, queue, hq⟩ | ⟨hq, hi⟩ | ⟨hq, hi, hr⟩
    · rw [execute_of_tick ha (tick_of_queue hq),
        execute_of_tick (m := m.withProgram q) ha' (tick_of_queue hq)]
      exact ⟨.same _, rfl⟩
    · rw [execute_of_tick ha (tick_of_interrupted hq hi),
        execute_of_tick (m := m.withProgram q) ha' (tick_of_interrupted hq hi)]
      refine ⟨?_, rfl⟩
      have hplace : (m.withProgram q).program.position (m.withProgram q).counter =
          m.program.position m.counter := hposition m.counter
      simp only [breakFault, hplace]
      exact .fault { kind := .interrupted, position := some (m.program.position m.counter) }
    · rw [execute_of_tick ha (tick_of_idle hq hi hr),
        execute_of_tick (m := m.withProgram q) ha' (tick_of_idle hq hi hr)]
      exact ⟨.same _, rfl⟩

theorem execute_withProgram (hsource : q.source = m.program.source)
    (hsize : q.size = m.program.size) (hposition : ∀ a, q.position a = m.program.position a)
    (hsteps : ∀ x ∈ (m.executeLogged draws budget).1, x.program = m.program →
      x.counter < x.program.size → x.SameStep draws q) :
    (m.withProgram q).execute draws budget =
      ((m.execute draws budget).1, (m.execute draws budget).2.withProgram q) := by
  obtain ⟨hevent, hnext⟩ := execute_renamed hsize hposition hsteps
  rw [hsource] at hevent
  exact Prod.ext hevent.eq hnext

theorem step_of_mends (h : q.Mends m.program) (hmem : m.counter ∉ m.program.jumps.unmatched)
    (hc : m.counter < m.program.size) : m.SameStep draws q := by
  have hstep := step_relocate draws (List.forall_mem_nil _) (h.hosts hmem) hc
  rw [relocate_zero, Nat.add_zero, h.position] at hstep
  rw [SameStep, withProgram, hstep]
  cases hs : m.step draws with
  | ok result =>
      obtain ⟨next, wait⟩ := result
      simp [mapResult, Except.map, Except.mapError, relocate_zero, withProgram]
  | error fault =>
      have hlocated : fault.located (m.program.position m.counter) = fault := by
        obtain ⟨i, cause, _, _, rfl⟩ := stepInstruction_of_error hc hs
        rfl
      simp [mapResult, Except.map, Except.mapError, hlocated]

/-- **Code that does not come to an unmatched bracket runs as if there was none.** -/
theorem execute_of_mends (h : q.Mends m.program)
    (hsteps : ∀ x ∈ (m.executeLogged draws budget).1, x.counter ∉ m.program.jumps.unmatched) :
    (m.withProgram q).execute draws budget =
      ((m.execute draws budget).1, (m.execute draws budget).2.withProgram q) := by
  have hsize : q.size = m.program.size := by
    rw [← Program.length_instructions, h.instructions.length, Program.length_instructions]
  refine execute_withProgram h.source hsize h.position ?_
  intro x hx hprogram hc
  refine step_of_mends (hprogram ▸ h) ?_ hc
  rw [hprogram]
  exact hsteps x hx

/-! ### Exactly at the unmatched brackets -/

/-- How a machine deals with unmatched brackets.  A call comes to the machine `x` with budget left
if it would have come to the end of a smaller budget there. -/
structure FailsExactly (draws : Draws) (m : Machine) : Prop where
  /-- A call fails for the lack of a partner if and only if it comes to a bracket in the list. -/
  fails_iff : ∀ budget,
    (∃ f, (m.execute draws budget).1 = .notice (.fault f) ∧ f.kind = .unmatchedBracket) ↔
      ∃ k x, k < budget ∧ m.execute draws k = (.running, x) ∧
        x.counter ∈ m.program.jumps.unmatched
  /-- It fails as soon as it comes there, whatever the cells are, and at the place of the
  bracket. -/
  place : ∀ budget k x, k < budget → m.execute draws k = (.running, x) →
    x.counter ∈ m.program.jumps.unmatched → m.execute draws budget =
      (.notice (.fault { kind := .unmatchedBracket
                         position := some (m.program.position x.counter)
                         source := some m.program.source }), { x.stop with queue := [] })
  /-- No step since the program was loaded has been at such a bracket. -/
  first : (∃ log, History log m) ∧
    ∀ log, History log m → ∀ t ∈ log, t.address ∉ m.program.jumps.unmatched
  /-- Without such brackets no call fails in this way. -/
  matched : m.program.jumps.unmatched = [] → ∀ budget f,
    (m.execute draws budget).1 = .notice (.fault f) → f.kind ≠ .unmatchedBracket
  /-- A bracket that jumps goes past its partner, which is of the same kind. -/
  moves : ∀ k x next wait, m.execute draws k = (.running, x) →
    x.step draws = .ok (next, wait) → x.Moves next
  /-- Before it comes to such a bracket, a call does what it would do if there was none. -/
  around : ∀ budget q, q.Mends m.program →
    (∀ k x, k < budget → m.execute draws k = (.running, x) →
      x.counter ∉ m.program.jumps.unmatched) →
    (m.withProgram q).execute draws budget =
      ((m.execute draws budget).1, (m.execute draws budget).2.withProgram q)

theorem Reachable.exists_of_unmatchedFault (h : Reachable m) {fault : Fault}
    (hfault : (m.execute draws budget).1 = .notice (.fault fault))
    (hkind : fault.kind = .unmatchedBracket) :
    ∃ k x, k < budget ∧ m.execute draws k = (.running, x) ∧
      x.counter ∈ m.program.jumps.unmatched := by
  obtain ⟨before, y, hsteps, _, hfails⟩ := h.execute_of_fault hfault (by simp [hkind])
  obtain ⟨cause, hstep, rfl, _⟩ := hfails.error
  obtain ⟨k, hk, hrun⟩ := exists_running_of_mem_steps (hsteps ▸ List.mem_append_right before
    (List.mem_singleton_self y))
  refine ⟨k, y, hk, hrun, ?_⟩
  rw [← hfails.program]
  exact mem_unmatched_of_step hfails.counter hstep hkind

theorem History.address_not_mem_unmatched {log : List Stride} (h : History log m) {t : Stride}
    (ht : t ∈ log) : t.address ∉ m.program.jumps.unmatched := by
  intro hmem
  obtain ⟨before, later, hlog⟩ := List.mem_iff_append.1 ht
  obtain ⟨hprogram, _, draws, wait, hs⟩ := h.accounts.past before t later hlog
  have hfails := step_of_unmatched draws (hprogram ▸ hmem)
  rw [hs.step_eq] at hfails
  contradiction

/-- **A run fails at an unmatched bracket exactly when it comes to one.** -/
theorem unmatched_fails_exactly (h : Reachable m) (draws : Draws) : m.FailsExactly draws where
  fails_iff budget := by
    constructor
    · rintro ⟨f, hf, hkind⟩
      exact h.exists_of_unmatchedFault hf hkind
    · rintro ⟨k, x, hk, hrun, hmem⟩
      rw [execute_of_unmatched hrun hmem hk]
      exact ⟨_, rfl, rfl⟩
  place budget k x hk hrun hmem := execute_of_unmatched hrun hmem hk
  first := ⟨reachable_iff_history.1 h, fun _ hlog _ ht => hlog.address_not_mem_unmatched ht⟩
  matched hnil budget f hf hkind := by
    obtain ⟨k, x, _, _, hmem⟩ := h.exists_of_unmatchedFault hf hkind
    rw [hnil] at hmem
    exact absurd hmem List.not_mem_nil
  moves k x next wait _ hs := (step_eq_ok_iff.1 hs).moves
  around budget q hq hno := by
    refine execute_of_mends hq fun x hx => ?_
    obtain ⟨k, hk, hrun⟩ := exists_running_of_mem_steps hx
    exact hno k x hk hrun

/-- A loop that is skipped, with an instruction inside and another one after it. -/
def skippedLoop (inside after : Instruction) : Program :=
  .ofCode "demo" [⟨.perform .global (.opening .testFirst), ⟨1, 1⟩⟩, ⟨inside, ⟨1, 2⟩⟩,
    ⟨.perform .global (.closing .testFirst), ⟨1, 3⟩⟩, ⟨after, ⟨1, 4⟩⟩]

/-- A machine that is to skip a loop with an unmatched bracket inside, and then comes to a closing
bracket that is unmatched, where the cell is zero. -/
def skipping : Machine :=
  load {} (skippedLoop (.perform .local (.opening .testLast))
    (.perform .local (.closing .testFirst)))

theorem mem_unmatched_skipping {a : ℕ} :
    a ∈ skipping.program.jumps.unmatched ↔ a = 1 ∨ a = 3 := by
  rw [Program.mem_unmatched_iff_target?]
  match a with
  | 0 => exact ⟨fun h => absurd h.2 (by decide), fun h => absurd h (by decide)⟩
  | 1 => exact ⟨fun _ => .inl rfl, fun _ => ⟨⟨_, _, rfl⟩, rfl⟩⟩
  | 2 => exact ⟨fun h => absurd h.2 (by decide), fun h => absurd h (by decide)⟩
  | 3 => exact ⟨fun _ => .inr rfl, fun _ => ⟨⟨_, _, rfl⟩, rfl⟩⟩
  | a + 4 =>
      constructor
      · rintro ⟨⟨k, s, hb⟩, _⟩
        have hlt := lt_length_of_bracketAt hb
        have hlength : skipping.program.instructions.length = 4 := rfl
        omega
      · omega

theorem mends_skipping {i j : Instruction} (hi : i.bracket? = none) (hj : j.bracket? = none) :
    (skippedLoop i j).Mends skipping.program where
  source := rfl
  position a := by
    match a with
    | 0 | 1 | 2 | 3 | a + 4 => rfl
  instructions := by
    refine ⟨rfl, fun a ha => ?_, fun a ha => ?_⟩
    · rw [← Program.unmatched_eq, mem_unmatched_skipping] at ha
      match a with
      | 0 | 2 | a + 4 => rfl
      | 1 | 3 => omega
    · rw [← Program.unmatched_eq, mem_unmatched_skipping] at ha
      rcases ha with rfl | rfl
      · exact hi
      · exact hj

/-- The loop is skipped as if no bracket was unmatched, and then the machine fails. -/
theorem unmatched_fails_exactly_skipping :
    (skipping.execute (fun _ => 0.5) 2).1 =
      .notice (.fault { kind := .unmatchedBracket, position := some ⟨1, 4⟩,
                        source := some "demo" }) ∧
    ((skipping.withProgram (skippedLoop .swap .swap)).execute (fun _ => 0.5) 1).1 = .running := by
  have h : skipping.FailsExactly fun _ => 0.5 := unmatched_fails_exactly (.load _ .new) _
  have hrun : skipping.execute (fun _ => 0.5) 1 = (.running, { skipping with counter := 3 }) := rfl
  constructor
  · rw [h.place 2 1 _ (by omega) hrun (mem_unmatched_skipping.2 (.inr rfl))]
    rfl
  · rw [h.around 1 (skippedLoop .swap .swap) (mends_skipping rfl rfl) ?_, hrun]
    intro k x hk hx
    obtain rfl : k = 0 := by omega
    obtain ⟨_, rfl⟩ := Prod.mk.inj hx
    rw [mem_unmatched_skipping]
    decide

end Machine

end TwinTape
