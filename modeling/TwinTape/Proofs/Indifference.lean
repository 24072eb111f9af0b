import TwinTape.Proofs.Calls
import TwinTape.Proofs.Congruence
import TwinTape.Proofs.Structured

/-! # Brackets that test first

Whether an opening bracket that tests first is among the brackets entered makes no difference to a
machine.  Two machines that differ in such brackets alone are `Alike`; each step takes them to
machines that are alike, or to the same fault (`Alike.step`), and they give the same answers to all
calls of a host (`Alike.performAll`). -/

namespace TwinTape
namespace Machine

variable {draws : Draws} {m m' : Machine}

/-! ### Machines that are alike -/

/-- Both lists hold the same addresses, those of opening brackets that test first apart. -/
structure Interchangeable (p : Program) (xs ys : List ℕ) : Prop where
  left : xs.Nodup
  right : ys.Nodup
  mem_iff : ∀ a, (∀ s, p.instruction? a ≠ some (.perform s (.opening .testFirst))) →
    (a ∈ ys ↔ a ∈ xs)

theorem Interchangeable.insert {p : Program} {xs ys : List ℕ} (h : Interchangeable p xs ys)
    (a : ℕ) : Interchangeable p (xs.insert a) (ys.insert a) := by
  refine ⟨h.left.insert, h.right.insert, fun b hb => ?_⟩
  rw [List.mem_insert_iff, List.mem_insert_iff, h.mem_iff b hb]

theorem Interchangeable.erase {p : Program} {xs ys : List ℕ} (h : Interchangeable p xs ys)
    (a : ℕ) : Interchangeable p (xs.erase a) (ys.erase a) := by
  refine ⟨h.left.erase a, h.right.erase a, fun b hb => ?_⟩
  rw [h.left.mem_erase_iff, h.right.mem_erase_iff, h.mem_iff b hb]

/-- The machines differ in the brackets entered that test first, and in nothing else. -/
def Alike (m m' : Machine) : Prop :=
  ∃ entered, m' = { m with entered := entered } ∧ Interchangeable m.program m.entered entered

/-! ### What a step keeps -/

/-- An opening bracket that tests first asks for the cell only, and one that tests last asks for
itself. -/
theorem congruence_alike (draws : Draws) :
    Congruence draws draws (fun _ => True) 0 Alike where
  phase := by rintro m _ ⟨entered, rfl, -⟩; rfl
  counter := by rintro m _ ⟨entered, rfl, -⟩; rfl
  memory := by rintro m _ s ⟨entered, rfl, -⟩ -; cases s <;> rfl
  draw := by rintro m _ ⟨entered, rfl, -⟩; rfl
  entered := by
    rintro m _ s ⟨entered, rfl, he⟩ hi
    exact he.mem_iff m.counter (by simp [hi])
  setPhase := by rintro m _ ⟨entered, rfl, he⟩ p; exact ⟨entered, rfl, he⟩
  goto := by rintro m _ ⟨entered, rfl, he⟩ a; exact ⟨entered, rfl, he⟩
  setMemory := by
    rintro m _ s ⟨entered, rfl, he⟩ - x
    cases s <;> exact ⟨entered, rfl, he⟩
  setDrawn := by rintro m _ ⟨entered, rfl, he⟩; exact ⟨entered, rfl, he⟩
  push := by rintro m _ ⟨entered, rfl, he⟩ n -; exact ⟨entered, rfl, he⟩
  mark := by rintro m _ ⟨entered, rfl, he⟩; exact ⟨_, rfl, he.insert m.counter⟩
  unmark := by rintro m _ ⟨entered, rfl, he⟩; exact ⟨_, rfl, he.erase m.counter⟩

theorem Alike.step (h : Alike m m') (draws : Draws) :
    Results Alike (m.step draws) (m'.step draws) := by
  have hprogram : m'.program = m.program := by
    obtain ⟨entered, rfl, -⟩ := h
    rfl
  exact (congruence_alike draws).step h hprogram fun _ _ => ⟨trivial, fun _ _ => trivial⟩

/-! ### What a run keeps -/

theorem Alike.run (h : Alike m m') (draws : Draws) (budget : ℕ) :
    (m'.run draws budget).1 = (m.run draws budget).1 ∧
      Alike (m.run draws budget).2 (m'.run draws budget).2 := by
  induction budget generalizing m m' with
  | zero => exact ⟨rfl, h⟩
  | succ budget ih =>
      have hstep := h.step draws
      obtain ⟨entered, rfl, he⟩ := h
      rw [Machine.run, Machine.run]
      by_cases hc : m.program.size ≤ m.counter
      · rw [if_pos hc, if_pos hc]
        exact ⟨rfl, entered, rfl, he⟩
      · rw [if_neg hc, if_neg hc]
        generalize m.step draws = r at hstep ⊢
        generalize Machine.step draws { m with entered := entered } = r' at hstep ⊢
        cases hstep with
        | error fault => exact ⟨rfl, entered, rfl, he⟩
        | @ok next next' wait hnext =>
            cases wait with
            | some medium => exact ⟨rfl, hnext⟩
            | none =>
                have hq : (next'.traced m.counter).queue = (next.traced m.counter).queue := by
                  obtain ⟨entered', rfl, _⟩ := hnext
                  unfold traced
                  dsimp only
                  split
                  · rfl
                  · split <;> rfl
                dsimp only
                rw [hq]
                cases (next.traced m.counter).queue with
                | nil => exact ih hnext
                | cons n queue =>
                    obtain ⟨entered', rfl, he'⟩ := hnext
                    exact ⟨rfl, entered', rfl, he'⟩

theorem Alike.execute (h : Alike m m') (draws : Draws) (budget : ℕ) :
    (m'.execute draws budget).1 = (m.execute draws budget).1 ∧
      Alike (m.execute draws budget).2 (m'.execute draws budget).2 := by
  have hrun := h.run draws budget
  obtain ⟨entered, rfl, he⟩ := h
  unfold Machine.execute
  dsimp only
  split
  · exact ⟨rfl, entered, rfl, he⟩
  · split
    · exact ⟨rfl, entered, rfl, he⟩
    · have hrunning : isRunning { m with entered := entered } = m.isRunning := rfl
      rw [hrunning]
      split
      · exact hrun
      · exact ⟨rfl, entered, rfl, he⟩

/-- Machines that are alike give the same answer to a call, and stay alike. -/
theorem Alike.perform (h : Alike m m') (c : Call) :
    (m'.perform c).1 = (m.perform c).1 ∧ Alike (m.perform c).2 (m'.perform c).2 := by
  have hload : ∀ p, Alike (m.load p) (m'.load p) := by
    intro p
    obtain ⟨entered, rfl, _⟩ := h
    exact ⟨[], rfl, List.nodup_nil, List.nodup_nil, fun _ _ => Iff.rfl⟩
  cases c with
  | runText source text =>
      refine ⟨rfl, ?_⟩
      simp only [Machine.perform, Machine.runText]
      cases Program.compile source text with
      | ok p => exact hload p
      | error fault =>
          obtain ⟨entered, rfl, he⟩ := h
          exact ⟨entered, rfl, he⟩
  | load p => exact ⟨rfl, hload p⟩
  | execute draws budget =>
      obtain ⟨hevent, halike⟩ := h.execute draws budget
      exact ⟨congrArg Answer.event hevent, halike⟩
  | enter line =>
      obtain ⟨hgiven, halike⟩ := (congruence_alike fun _ => 0).enter h line
      exact ⟨congrArg Answer.taken hgiven, halike⟩
  | interrupt =>
      obtain ⟨entered, rfl, he⟩ := h
      have hrunning : isRunning { m with entered := entered } = m.isRunning := rfl
      refine ⟨rfl, ?_⟩
      simp only [Machine.perform, Machine.interrupt, hrunning]
      cases m.isRunning with
      | true => exact ⟨entered, rfl, he⟩
      | false => exact ⟨entered, rfl, he⟩
  | setTracing on =>
      obtain ⟨entered, rfl, he⟩ := h
      exact ⟨rfl, entered, rfl, he⟩

theorem Alike.performAll (h : Alike m m') (calls : List Call) :
    (m'.performAll calls).1 = (m.performAll calls).1 ∧
      Alike (m.performAll calls).2 (m'.performAll calls).2 := by
  induction calls generalizing m m' with
  | nil => exact ⟨rfl, h⟩
  | cons c calls ih =>
      obtain ⟨hanswer, halike⟩ := h.perform c
      obtain ⟨hanswers, hrest⟩ := ih halike
      refine ⟨?_, hrest⟩
      rw [Machine.performAll, Machine.performAll, hanswer, hanswers]

end Machine
end TwinTape
