import TwinTape.Proofs.Unmatched

/-! # Other spellings of an action

An action with the count `n` is the same as its opposite with the count `-n`, and an action without
a count is the same as one with the count 1.  A program whose instructions are spelled in another
of these ways, at the same places, is `Program.Respells` of the first.

Both programs have the same jumps (`Program.Respells.jumps_eq`), and each instruction does the same
in both spellings, in every state of a machine and also in the middle of a repetition
(`Instruction.Respells.stepInstruction_eq`).  So a machine takes the same steps with both
(`Machine.sameStep_of_respells`), and nothing that a host calls can tell them apart
(`Machine.respelled_answers_alike`). -/

namespace TwinTape

/-! ### Counts -/

theorem toInt_neg_of_ne_minValue {n : Int64} (hn : n ≠ Int64.minValue) :
    (-n).toInt = -n.toInt := by
  have hne : n.toInt ≠ Int64.minValue.toInt := fun h => hn (Int64.toInt_inj.1 h)
  have hlow := Int64.le_toInt n
  have hhigh := Int64.toInt_lt n
  have hmin : Int64.minValue.toInt = -2 ^ 63 := by decide
  rw [Int64.toInt_neg, Int.bmod_eq_of_le]
  · omega
  · omega

theorem Action.signed_opposite {n : ℤ} (hn : n ≠ 0) (a : Action) :
    a.opposite.signed (-n) = a.signed n := by
  unfold signed
  rcases lt_or_gt_of_ne hn with hn | hn
  · rw [if_neg (by omega), if_pos hn, Int.natAbs_neg]
  · rw [if_pos (by omega), if_neg (by omega), Int.natAbs_neg, opposite_opposite]

/-! ### Instructions -/

namespace Instruction

/-- The first instruction is the second one, or another spelling of it. -/
inductive Respells : Instruction → Instruction → Prop
  | same (i : Instruction) : Respells i i
  /-- The opposite action with the negated count. -/
  | opposite (s : Scope) (a : Action) {n : Int64} :
      n ≠ Int64.minValue → Respells (act s (.times (-n)) a.opposite) (act s (.times n) a)
  /-- The action with the count 1 in place of none. -/
  | counted (s : Scope) (a : Action) : Respells (act s (.times 1) a) (act s .once a)
  /-- The action without a count in place of the count 1. -/
  | plain (s : Scope) (a : Action) : Respells (act s .once a) (act s (.times 1) a)

variable {i j : Instruction}

theorem Respells.bracket?_eq (h : j.Respells i) : j.bracket? = i.bracket? := by
  cases h <;> rfl

theorem repeatBurst_zero (m : Machine) (s : Scope) (a b : Action) :
    m.repeatBurst s ⟨a, 0, false⟩ = m.repeatBurst s ⟨b, 0, false⟩ := by
  have hresult : m.burstResult s ⟨a, 0, false⟩ = m.burstResult s ⟨b, 0, false⟩ := by
    simp [Machine.burstResult]
  simp [Machine.repeatBurst_eq, hresult]

/-- An instruction does the same in another spelling. -/
theorem Respells.stepInstruction_eq (h : j.Respells i) (draws : Draws) (m : Machine) :
    Machine.stepInstruction draws m j = Machine.stepInstruction draws m i := by
  cases h with
  | same => rfl
  | counted s a | plain s a =>
      have honce : (Repeat.times 1).resolve? a (m.memory s).cell =
          Repeat.once.resolve? a (m.memory s).cell := rfl
      simp only [Machine.stepInstruction, Machine.repetition?, honce]
  | @opposite s a n hn =>
      cases hp : m.phase with
      | repeating rest => simp only [Machine.stepInstruction, Machine.repetition?, hp]
      | idle | ready | waiting | supplied =>
          simp only [Machine.stepInstruction, Machine.repetition?, hp, Repeat.resolve?,
            toInt_neg_of_ne_minValue hn, Option.map_some]
          by_cases hzero : n.toInt = 0
          · simp only [hzero, Int.neg_zero, Action.signed, Int.lt_irrefl, if_false, Int.natAbs_zero]
            rw [repeatBurst_zero m s a.opposite a]
          · rw [Action.signed_opposite hzero]

end Instruction

/-! ### Programs -/

theorem Matching.readAll_congr {is js : List Instruction}
    (h : List.Forall₂ (fun j i => j.bracket? = i.bracket?) js is) (m : Matching) (a : ℕ) :
    m.readAll a js = m.readAll a is := by
  induction h generalizing m a with
  | nil => rfl
  | cons hb _ ih =>
      rw [readAll, readAll, ih, read, read, hb]

/-- The instruction is spelled in another way, at the same place. -/
structure Placed.Respells (y x : Placed) : Prop where
  instruction : y.instruction.Respells x.instruction
  position : y.position = x.position

/-- The program `q` is `p`, with any of the instructions spelled in another way. -/
structure Program.Respells (q p : Program) : Prop where
  source : q.source = p.source
  code : List.Forall₂ Placed.Respells q.code p.code

namespace Program
variable {p q : Program}

theorem Respells.refl (p : Program) : p.Respells p :=
  ⟨rfl, List.forall₂_same.2 fun x _ => ⟨.same x.instruction, rfl⟩⟩

theorem Respells.size_eq (h : q.Respells p) : q.size = p.size := h.code.length_eq

theorem Respells.jumps_eq (h : q.Respells p) : q.jumps = p.jumps := by
  rw [q.jumps_eq, p.jumps_eq]
  unfold JumpTable.ofInstructions
  rw [Matching.readAll_congr]
  rw [List.forall₂_map_left_iff, List.forall₂_map_right_iff]
  exact h.code.imp fun y x hyx => hyx.instruction.bracket?_eq

/-- At each address there are two spellings of one instruction, or the programs have ended. -/
theorem Respells.code_at (h : q.Respells p) (a : ℕ) :
    (q.code[a]? = none ∧ p.code[a]? = none) ∨
      ∃ y x, q.code[a]? = some y ∧ p.code[a]? = some x ∧ y.Respells x := by
  obtain ⟨hlength, hat⟩ := List.forall₂_iff_get.1 h.code
  by_cases ha : a < p.code.length
  · have ha' : a < q.code.length := by omega
    exact .inr ⟨_, _, List.getElem?_eq_getElem ha', List.getElem?_eq_getElem ha, hat a ha' ha⟩
  · exact .inl ⟨List.getElem?_eq_none (by omega), List.getElem?_eq_none (by omega)⟩

theorem Respells.position_eq (h : q.Respells p) (a : ℕ) : q.position a = p.position a := by
  unfold position
  rcases h.code_at a with ⟨hq, hp⟩ | ⟨y, x, hq, hp, hyx⟩
  · rw [hq, hp]
  · rw [hq, hp]
    exact hyx.position

end Program

/-! ### Machines -/

namespace Machine
variable {draws : Draws} {m m' : Machine} {q : Program}

theorem stepInstruction_withProgram (draws : Draws)
    (htarget : q.jumps.target? m.counter = m.program.jumps.target? m.counter) {i : Instruction}
    (hi : m.program.instruction? m.counter = some i) :
    stepInstruction draws (m.withProgram q) i =
      mapResult (·.withProgram q) (stepInstruction draws m i) := by
  have hstep : stepInstruction draws (m.relocate q 0 []) i =
      mapResult (relocate q 0 []) (stepInstruction draws m i) :=
    stepInstruction_relocate draws (List.forall_mem_nil _) (by simpa using htarget) hi
  have hrelocate : relocate q 0 [] = (·.withProgram q) := funext fun m => relocate_zero q m
  rwa [hrelocate] at hstep

theorem sameStep_of_respells (h : q.Respells m.program) : m.SameStep draws q := by
  have hprogram : (m.withProgram q).program = q := rfl
  have hcounter : (m.withProgram q).counter = m.counter := rfl
  unfold SameStep step Program.instruction?
  rw [hprogram, hcounter, h.position_eq]
  rcases h.code_at m.counter with ⟨hq, hp⟩ | ⟨y, x, hq, hp, hyx⟩
  · rw [hq, hp]
    rfl
  · have hi : m.program.instruction? m.counter = some x.instruction := by
      rw [Program.instruction?, hp]
      rfl
    rw [hq, hp]
    simp only [Option.map_some]
    rw [hyx.instruction.stepInstruction_eq,
      stepInstruction_withProgram draws (by rw [h.jumps_eq]) hi]
    cases stepInstruction draws m x.instruction <;> rfl

/-- The second machine is the first one, with another spelling of its program. -/
def Respelled (m m' : Machine) : Prop := ∃ q, q.Respells m.program ∧ m' = m.withProgram q

theorem Respelled.execute (h : m.Respelled m') (draws : Draws) (budget : ℕ) :
    (m'.execute draws budget).1 = (m.execute draws budget).1 ∧
      (m.execute draws budget).2.Respelled (m'.execute draws budget).2 := by
  obtain ⟨q, hq, rfl⟩ := h
  rw [execute_withProgram hq.source hq.size_eq hq.position_eq
    fun x _ hprogram _ => sameStep_of_respells (hprogram ▸ hq)]
  refine ⟨rfl, q, ?_, rfl⟩
  rw [program_execute]
  exact hq

theorem Respelled.load (h : m.Respelled m') {p : Program} (hq : q.Respells p) :
    (m.load p).Respelled (m'.load q) := by
  obtain ⟨_, _, rfl⟩ := h
  exact ⟨q, hq, rfl⟩

end Machine

/-- The first call is the second one, or starts another spelling of the program. -/
inductive Call.Respells : Call → Call → Prop
  | same (c : Call) : Respells c c
  | load {p q : Program} : q.Respells p → Respells (.load q) (.load p)

namespace Machine
variable {m m' : Machine} {q : Program} {c c' : Call} {calls calls' : List Call}

theorem Respelled.perform_same (h : m.Respelled m') (c : Call) :
    (m'.perform c).1 = (m.perform c).1 ∧ (m.perform c).2.Respelled (m'.perform c).2 := by
  cases c with
  | runText source text =>
      refine ⟨rfl, ?_⟩
      simp only [perform, runText]
      cases Program.compile source text with
      | ok p => exact h.load (.refl p)
      | error fault =>
          obtain ⟨q, hq, rfl⟩ := h
          exact ⟨q, hq, rfl⟩
  | load p => exact ⟨rfl, h.load (.refl p)⟩
  | execute draws budget =>
      obtain ⟨hevent, hnext⟩ := h.execute draws budget
      exact ⟨congrArg Answer.event hevent, hnext⟩
  | enter line =>
      obtain ⟨q, hq, rfl⟩ := h
      have hwaiting : (m.withProgram q).isWaiting = m.isWaiting := rfl
      simp only [perform, enter, hwaiting]
      split
      · exact ⟨rfl, q, hq, rfl⟩
      · exact ⟨rfl, q, hq, rfl⟩
  | interrupt =>
      obtain ⟨q, hq, rfl⟩ := h
      have hrunning : (m.withProgram q).isRunning = m.isRunning := rfl
      refine ⟨rfl, ?_⟩
      simp only [perform, interrupt, hrunning]
      split
      · exact ⟨q, hq, rfl⟩
      · exact ⟨q, hq, rfl⟩
  | setTracing on =>
      obtain ⟨q, hq, rfl⟩ := h
      exact ⟨rfl, q, hq, rfl⟩

theorem Respelled.perform (h : m.Respelled m') (hc : c'.Respells c) :
    (m'.perform c').1 = (m.perform c).1 ∧ (m.perform c).2.Respelled (m'.perform c').2 := by
  cases hc with
  | same => exact h.perform_same c
  | load hq => exact ⟨rfl, h.load hq⟩

theorem Respelled.performAll (h : m.Respelled m')
    (hcalls : List.Forall₂ Call.Respells calls' calls) :
    (m'.performAll calls').1 = (m.performAll calls).1 ∧
      (m.performAll calls).2.Respelled (m'.performAll calls').2 := by
  induction hcalls generalizing m m' with
  | nil => exact ⟨rfl, h⟩
  | cons hc _ ih =>
      obtain ⟨hanswer, hnext⟩ := h.perform hc
      obtain ⟨hanswers, hrest⟩ := ih hnext
      refine ⟨?_, hrest⟩
      rw [Machine.performAll, Machine.performAll, hanswer, hanswers]

/-- **A negative count is the opposite action.**  Whatever a machine is doing, and whatever a host
calls, other spellings of the actions of its program, and of programs that are started later, change
no answer, and after each call nothing in the machine is different but the program. -/
theorem respelled_answers_alike (h : q.Respells m.program)
    (hcalls : List.Forall₂ Call.Respells calls' calls) (k : ℕ) :
    ((m.withProgram q).performAll (calls'.take k)).1 = (m.performAll (calls.take k)).1 ∧
      ∃ q', q'.Respells (m.performAll (calls.take k)).2.program ∧
        ((m.withProgram q).performAll (calls'.take k)).2 =
          (m.performAll (calls.take k)).2.withProgram q' := by
  have hbegin : m.Respelled (m.withProgram q) := ⟨q, h, rfl⟩
  exact hbegin.performAll (List.forall₂_take k hcalls)

/-- Three actions: on the global memory, on the local one, and on the global one. -/
def threeActions (i j k : Repeat × Action) : Program :=
  .ofCode "demo" [⟨.act .global i.1 i.2, ⟨1, 1⟩⟩, ⟨.act .local j.1 j.2, ⟨1, 7⟩⟩,
    ⟨.act .global k.1 k.2, ⟨2, 1⟩⟩]

/-- A walk off the left end, an action that is not done, and one without a count. -/
def walkLeft : Program :=
  threeActions (.times (-3), .moveRight) (.times 0, .multiply) (.once, .moveLeft)

/-- The same with positive counts. -/
def walkLeftRespelled : Program :=
  threeActions (.times 3, .moveLeft) (.times 0, .divide) (.times 1, .moveLeft)

theorem walkLeftRespelled_respells : walkLeftRespelled.Respells walkLeft where
  source := rfl
  code := by
    refine .cons ⟨?_, rfl⟩ (.cons ⟨?_, rfl⟩ (.cons ⟨?_, rfl⟩ .nil))
    · exact .opposite (n := -3) .global .moveRight (by decide)
    · exact .opposite (n := 0) .local .multiply (by decide)
    · exact .counted .global .moveLeft

/-- Both spellings warn at the first and at the last action, and both can be started again. -/
theorem respelled_answers_alike_walkLeft :
    (((load {} walkLeft).withProgram walkLeftRespelled).performAll
      [.execute (fun _ => 0.5) 9, .execute (fun _ => 0.5) 9, .execute (fun _ => 0.5) 9,
        .load walkLeftRespelled, .execute (fun _ => 0.5) 1]).1 =
      [.event (.notice (.warning .tooLeft)), .event (.notice (.warning .tooLeft)),
        .event .stopped, .nothing, .event (.notice (.warning .tooLeft))] := by
  have halike := respelled_answers_alike (m := load {} walkLeft) walkLeftRespelled_respells
    (.cons (.same (.execute (fun _ => 0.5) 9)) (.cons (.same (.execute (fun _ => 0.5) 9))
      (.cons (.same (.execute (fun _ => 0.5) 9)) (.cons (.load walkLeftRespelled_respells)
        (.cons (.same (.execute (fun _ => 0.5) 1)) .nil))))) 5
  exact halike.1

end Machine
end TwinTape
