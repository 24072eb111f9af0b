import TwinTape.Proofs.Step

/-! # Relations that steps respect

A relation between machines is a `Machine.Congruence` if all that an instruction does to a machine
keeps it, and if an instruction finds the same in machines that are related: the phase, the random
number, and the memories of the scopes that the relation `sees`.  Addresses may be greater by an
`offset` in the second machine.

Then an instruction ends in machines that are related, or in the same fault
(`Congruence.stepInstruction`), and so does a step (`Congruence.step`).  If the related machine is a
function of the first, the function maps the result (`Results.eq_mapResult`). -/

namespace TwinTape

/-- The address in a report of an executed instruction. -/
def Notice.address? : Notice → Option ℕ
  | .trace a => some a
  | _ => none

namespace Machine
variable {draws draws' : Draws} {sees : Scope → Prop} {offset : ℕ}
  {R : Machine → Machine → Prop} {m m' : Machine} {s : Scope}

/-! ### Results -/

/-- The result of a step, after a change of the machine. -/
def mapResult (f : Machine → Machine) (r : Except Fault (Machine × Option Medium)) :
    Except Fault (Machine × Option Medium) :=
  r.map fun (next, wait) => (f next, wait)

/-- Results that end in machines that are related, or in the same fault. -/
inductive Results (R : Machine → Machine → Prop) : Except Fault (Machine × Option Medium) →
    Except Fault (Machine × Option Medium) → Prop
  | error (fault : Fault) : Results R (.error fault) (.error fault)
  | ok {next next' : Machine} (wait : Option Medium) :
      R next next' → Results R (.ok (next, wait)) (.ok (next', wait))

theorem Results.mapError {r r' : Except Fault (Machine × Option Medium)} (h : Results R r r')
    (f : Fault → Fault) : Results R (r.mapError f) (r'.mapError f) := by
  cases h with
  | error fault => exact .error (f fault)
  | ok wait h => exact .ok wait h

theorem Results.eq_mapResult {f : Machine → Machine}
    {r r' : Except Fault (Machine × Option Medium)}
    (h : Results (fun m m' => m' = f m) r r') : r' = mapResult f r := by
  cases h with
  | error fault => rfl
  | ok wait h =>
      rw [h]
      rfl

/-! ### Congruences -/

/-- What instructions do to machines keeps the relation, and they find the same in both. -/
structure Congruence (draws draws' : Draws) (sees : Scope → Prop) (offset : ℕ)
    (R : Machine → Machine → Prop) : Prop where
  phase : ∀ {m m'}, R m m' → m'.phase = m.phase
  counter : ∀ {m m'}, R m m' → m'.counter = m.counter + offset
  memory : ∀ {m m' s}, R m m' → sees s → m'.memory s = m.memory s
  draw : ∀ {m m'}, R m m' → draws' m'.drawn = draws m.drawn
  /-- A bracket that tests last finds in both whether it is entered. -/
  entered : ∀ {m m' s}, R m m' →
    m.program.instruction? m.counter = some (.perform s (.opening .testLast)) →
    (m'.counter ∈ m'.entered ↔ m.counter ∈ m.entered)
  setPhase : ∀ {m m'}, R m m' → ∀ p, R { m with phase := p } { m' with phase := p }
  goto : ∀ {m m'}, R m m' → ∀ a, R (m.goto a) (m'.goto (a + offset))
  setMemory : ∀ {m m' s}, R m m' → sees s → ∀ x, R (m.setMemory s x) (m'.setMemory s x)
  setDrawn : ∀ {m m'}, R m m' →
    R { m with drawn := m.drawn + 1 } { m' with drawn := m'.drawn + 1 }
  push : ∀ {m m'}, R m m' → ∀ n : Notice, n.address? = none → R (m.push n) (m'.push n)
  mark : ∀ {m m'}, R m m' → R m.markEntered m'.markEntered
  unmark : ∀ {m m'}, R m m' → R m.unmarkEntered m'.unmarkEntered

namespace Congruence

theorem advance (hR : Congruence draws draws' sees offset R) (h : R m m') :
    R m.advance m'.advance := by
  have hgoto := hR.goto h (m.counter + 1)
  rwa [Nat.add_right_comm, ← hR.counter h] at hgoto

theorem isZero (hR : Congruence draws draws' sees offset R) (h : R m m') (hs : sees s) :
    m'.isZero s = m.isZero s := by
  rw [Machine.isZero, Machine.isZero, hR.memory h hs]

theorem repeatBurst (hR : Congruence draws draws' sees offset R) (h : R m m') (hs : sees s)
    (r : Repetition) : R (m.repeatBurst s r) (m'.repeatBurst s r) := by
  unfold Machine.repeatBurst
  rw [hR.memory h hs]
  generalize (m.memory s).actTimes r.action (min r.left burst) r.warned = done
  obtain ⟨memory, warned⟩ := done
  have hset := hR.setMemory h hs memory
  dsimp only
  by_cases hw : (warned && !r.warned) = true
  · have hpush := hR.push hset (.warning .tooLeft) rfl
    rw [if_pos hw, if_pos hw]
    split
    · exact hR.setPhase hpush _
    · exact hR.setPhase (hR.advance hpush) _
  · rw [if_neg hw, if_neg hw]
    split
    · exact hR.setPhase hset _
    · exact hR.setPhase (hR.advance hset) _

theorem skips (hR : Congruence draws draws' sees offset R) (h : R m m') (hs : sees s)
    {form : LoopForm}
    (hi : m.program.instruction? m.counter = some (.perform s (.opening form))) :
    m'.skips s form = m.skips s form := by
  cases form with
  | testFirst => exact hR.isZero h hs
  | testLast =>
      have hentered : m'.entered.contains m'.counter = m.entered.contains m.counter := by
        rw [Bool.eq_iff_iff, List.contains_iff_mem, List.contains_iff_mem]
        exact hR.entered h hi
      simp only [Machine.skips, hR.isZero h hs, hentered]

theorem stepOpening (hR : Congruence draws draws' sees offset R) (h : R m m') (hs : sees s)
    {form : LoopForm}
    (hi : m.program.instruction? m.counter = some (.perform s (.opening form))) (target : ℕ) :
    R (m.stepOpening s form target) (m'.stepOpening s form (target + offset)) := by
  rw [stepOpening_eq_ite, stepOpening_eq_ite, hR.skips h hs hi]
  split
  · have hgoto := hR.goto (hR.unmark h) (target + 1)
    rwa [Nat.add_right_comm] at hgoto
  · exact hR.advance (hR.mark h)

theorem stepClosing (hR : Congruence draws draws' sees offset R) (h : R m m') (hs : sees s)
    (target : ℕ) : R (m.stepClosing s target) (m'.stepClosing s (target + offset)) := by
  unfold Machine.stepClosing
  rw [hR.isZero h hs]
  split
  · exact hR.advance (hR.unmark h)
  · have hgoto := hR.goto h (target + 1)
    rwa [Nat.add_right_comm] at hgoto

theorem stepBracket {go go' : ℕ → Machine}
    (htarget : m'.program.jumps.target? m'.counter =
      (m.program.jumps.target? m.counter).map (· + offset))
    (hgo : ∀ target, R (go target) (go' (target + offset))) :
    Results R (do return (← m.stepBracket go, none)) (do return (← m'.stepBracket go', none)) := by
  unfold Machine.stepBracket
  rw [htarget]
  cases m.program.jumps.target? m.counter with
  | none => exact .error _
  | some target => exact .ok none (hgo target)

theorem stepOperation (hR : Congruence draws draws' sees offset R) (h : R m m') (hs : sees s)
    (htarget : m'.program.jumps.target? m'.counter =
      (m.program.jumps.target? m.counter).map (· + offset)) {o : Operation}
    (hi : m.program.instruction? m.counter = some (.perform s o)) :
    Results R (m.stepOperation draws s o) (m'.stepOperation draws' s o) := by
  have hmemory := hR.memory h hs
  cases o with
  | random =>
      simp only [Machine.stepOperation, hmemory, hR.draw h]
      have hset := hR.setDrawn (hR.setMemory h hs ((m.memory s).set (draws m.drawn)))
      rw [drawn_setMemory, drawn_setMemory] at hset
      exact .ok none (hR.advance hset)
  | switchTape =>
      simp only [Machine.stepOperation, hmemory]
      exact .ok none (hR.advance (hR.setMemory h hs _))
  | output medium =>
      simp only [Machine.stepOperation, hmemory]
      cases medium.write (m.memory s).cell with
      | error fault => exact .error fault
      | ok out => exact .ok none (hR.advance (hR.push h _ rfl))
  | input medium =>
      simp only [Machine.stepOperation, hR.phase h]
      cases m.phase with
      | supplied line =>
          dsimp only
          rw [hmemory]
          cases medium.read line with
          | error fault => exact .error fault
          | ok x => exact .ok none (hR.advance (hR.setPhase (hR.setMemory h hs _) _))
      | idle | ready | waiting | repeating => exact .ok _ (hR.setPhase h _)
  | opening form => exact stepBracket htarget (hR.stepOpening h hs hi)
  | closing form => exact stepBracket htarget (hR.stepClosing h hs)
  | reserved what => exact .ok none (hR.advance h)

/-- An instruction ends in machines that are related, or in the same fault. -/
theorem stepInstruction (hR : Congruence draws draws' sees offset R) (h : R m m')
    (htarget : m'.program.jumps.target? m'.counter =
      (m.program.jumps.target? m.counter).map (· + offset)) {i : Instruction}
    (hi : m.program.instruction? m.counter = some i) (hs : sees i.scope)
    (hswap : i = .swap → ∀ s, sees s) :
    Results R (m.stepInstruction draws i) (m'.stepInstruction draws' i) := by
  cases i with
  | act s times a =>
      have hr : m'.repetition? s times a = m.repetition? s times a := by
        rw [repetition?, repetition?, hR.phase h, hR.memory (s := s) h hs]
      simp only [Machine.stepInstruction, hr]
      cases m.repetition? s times a with
      | none => exact .error _
      | some r => exact .ok none (hR.repeatBurst h hs r)
  | perform s o => exact hR.stepOperation h hs htarget hi
  | swap =>
      refine .ok none (hR.advance ?_)
      rw [swapCells_eq, swapCells_eq, hR.memory h (hswap rfl .global),
        hR.memory h (hswap rfl .local)]
      exact hR.setMemory (hR.setMemory h (hswap rfl .global) _) (hswap rfl .local) _

theorem step (hR : Congruence draws draws' sees 0 R) (h : R m m')
    (hprogram : m'.program = m.program)
    (hsees : ∀ i, m.program.instruction? m.counter = some i →
      sees i.scope ∧ (i = .swap → ∀ s, sees s)) :
    Results R (m.step draws) (m'.step draws') := by
  have hcounter : m'.counter = m.counter := hR.counter h
  unfold Machine.step
  rw [hprogram, hcounter]
  cases hi : m.program.instruction? m.counter with
  | none => exact .error _
  | some i =>
      obtain ⟨hs, hswap⟩ := hsees i hi
      refine (hR.stepInstruction h ?_ hi hs hswap).mapError _
      rw [hprogram, hcounter]
      simp

theorem enter (hR : Congruence draws draws' sees offset R) (h : R m m') (line : List Char) :
    (m'.enter line).1 = (m.enter line).1 ∧ R (m.enter line).2 (m'.enter line).2 := by
  have hwaiting : m'.isWaiting = m.isWaiting := by rw [isWaiting, isWaiting, hR.phase h]
  unfold Machine.enter
  rw [hwaiting]
  split
  · exact ⟨rfl, hR.setPhase h _⟩
  · exact ⟨rfl, h⟩

end Congruence
end Machine
end TwinTape
