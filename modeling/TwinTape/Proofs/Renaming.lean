import TwinTape.Proofs.LineDiscipline
import TwinTape.Proofs.Opposites

/-! # Names of texts

The name of a text is told with every fault and matters nowhere else.  A machine whose program has
another name answers a call in the same way, up to the name in a fault
(`Machine.execute_named`).

Two shells that run a program under different names are `Twins` until the run is over: turn by turn
they read the same bytes and write the same, up to the name in the report of a fault
(`Shell.Twins.run`). -/

namespace TwinTape

/-- The program under another name. -/
def Program.named (source : String) (p : Program) : Program := { p with source := source }

/-! ### Machines -/

namespace Machine
variable {draws : Draws}

/-- The machine with its program under another name. -/
def named (source : String) (m : Machine) : Machine := m.withProgram (m.program.named source)

theorem sameStep_named (draws : Draws) (source : String) (m : Machine) :
    m.SameStep draws (m.program.named source) := by
  have hprogram : (m.withProgram (m.program.named source)).program = m.program.named source := rfl
  have hcounter : (m.withProgram (m.program.named source)).counter = m.counter := rfl
  have hinstruction : (m.program.named source).instruction? m.counter =
      m.program.instruction? m.counter := rfl
  have hposition : (m.program.named source).position m.counter =
      m.program.position m.counter := rfl
  have htarget : (m.program.named source).jumps.target? m.counter =
      m.program.jumps.target? m.counter := rfl
  unfold SameStep step
  rw [hprogram, hcounter, hinstruction, hposition]
  cases hi : m.program.instruction? m.counter with
  | none => rfl
  | some i =>
      dsimp only
      rw [stepInstruction_withProgram draws htarget hi]
      cases stepInstruction draws m i <;> rfl

/-- **A call is answered in the same way under another name.** -/
theorem execute_named (draws : Draws) (budget : ℕ) (source : String) (m : Machine) :
    Event.Renamed m.program.source source (m.execute draws budget).1
        ((m.named source).execute draws budget).1 ∧
      ((m.named source).execute draws budget).2 = (m.execute draws budget).2.named source := by
  have hsteps : ∀ x ∈ (m.executeLogged draws budget).1, x.program = m.program →
      x.counter < x.program.size → x.SameStep draws (m.program.named source) := by
    intro x _ hprogram _
    rw [← hprogram]
    exact sameStep_named draws source x
  have hsize : (m.program.named source).size = m.program.size := rfl
  have hposition : ∀ address, (m.program.named source).position address =
      m.program.position address := fun _ => rfl
  rw [named, named, program_execute]
  exact execute_renamed hsize hposition hsteps

theorem enter_named (source : String) (m : Machine) (line : List Char) :
    ((m.named source).enter line).2 = (m.enter line).2.named source := by
  have hwaiting : (m.named source).isWaiting = m.isWaiting := rfl
  unfold enter
  rw [hwaiting]
  split
  · rfl
  · rfl

theorem interrupt_named (source : String) (m : Machine) :
    (m.named source).interrupt = m.interrupt.named source := by
  have hrunning : (m.named source).isRunning = m.isRunning := rfl
  unfold interrupt
  rw [hrunning]
  split
  · rfl
  · rfl

end Machine

/-! ### Shells -/

/-- Strokes of two shells whose programs are named `a` and `b`: only the report of a fault can tell
them apart. -/
inductive Stroke.Renamed (a b : String) : Stroke → Stroke → Prop
  | same (x : Stroke) : Renamed a b x x
  | fault (f : Fault) :
      Renamed a b (.report .error (f.inSource a).message) (.report .error (f.inSource b).message)

theorem Stroke.renamed_refl (a b : String) (strokes : List Stroke) :
    List.Forall₂ (Renamed a b) strokes strokes :=
  List.forall₂_same.2 fun x _ => .same x

namespace Shell
variable {draws : Draws} {a b : String} {s t : Shell}

/-- The second shell does what the first one does, with its program under the name `b` in the place
of `a`.  When the run is over, each does what its options say. -/
structure Twins (a b : String) (s t : Shell) : Prop where
  name : s.machine.program.source = a
  machine : t.machine = s.machine.named b
  flags : t.options.flags = s.options.flags
  success : t.success = s.success
  complaint : t.complaint = s.complaint
  activity : t.activity = s.activity ∨ s.activity = s.afterRun ∧ t.activity = t.afterRun

section flags
variable (hflags : t.options.flags = s.options.flags)
include hflags

theorem has_of_flags (f : Flag) : t.options.has f = s.options.has f := by
  unfold Options.has
  rw [hflags]

theorem debugs_of_flags : t.options.debugs = s.options.debugs := by
  unfold Options.debugs
  rw [has_of_flags hflags, has_of_flags hflags]

theorem concludeStrokes_of_flags (m : Machine) :
    concludeStrokes { t with machine := m.named b } = concludeStrokes { s with machine := m } := by
  simp only [concludeStrokes, debugStrokes, debugs_of_flags hflags]
  rfl

theorem notifyStrokes_of_flags (m : Machine) (n : Notice) :
    notifyStrokes { t with machine := m.named b } n = notifyStrokes { s with machine := m } n := by
  cases n with
  | print | trace | fault => rfl
  | warning w =>
      have hwarns : t.options.warns w = s.options.warns w := by
        cases w
        simp only [Options.warns, has_of_flags hflags]
      simp only [notifyStrokes, hwarns]

end flags

theorem Twins.after (h : Twins a b s t) {e e' : Event} {m m' : Machine}
    (hs : s.machine.execute draws budget = (e, m))
    (ht : t.machine.execute draws budget = (e', m')) :
    Event.Renamed a b e e' ∧ m' = m.named b ∧ m.program.source = a := by
  obtain ⟨hevent, hnext⟩ := s.machine.execute_named draws budget b
  have hprogram := Machine.program_execute draws budget s.machine
  rw [← h.machine, ht, hs] at hevent hnext
  rw [hs] at hprogram
  rw [h.name] at hevent
  exact ⟨hevent, hnext, by rw [hprogram, h.name]⟩

theorem Twins.advance (h : Twins a b s t) (hactivity : t.activity = s.activity) :
    List.Forall₂ (Stroke.Renamed a b) (s.advanceStrokes draws) (t.advanceStrokes draws) ∧
      Twins a b (s.advance draws) (t.advance draws) := by
  rcases hs : s.machine.execute draws budget with ⟨e, m⟩
  rcases ht : t.machine.execute draws budget with ⟨e', m'⟩
  obtain ⟨hevent, rfl, hname⟩ := h.after hs ht
  unfold Shell.advance advanceStrokes
  rw [hs, ht]
  cases hevent with
  | fault f =>
      simp only [notify_eq]
      refine ⟨.cons (.fault f) .nil, hname, rfl, h.flags, ?_, h.complaint, .inl hactivity⟩
      show (t.success && false) = (s.success && false)
      rw [h.success]
  | same =>
      cases e with
      | running =>
          exact ⟨.nil, hname, rfl, h.flags, h.success, h.complaint, .inl hactivity⟩
      | input medium =>
          exact ⟨Stroke.renamed_refl a b _, hname, rfl, h.flags, h.success, h.complaint, .inl rfl⟩
      | stopped =>
          simp only [conclude_eq, concludeStrokes_of_flags h.flags]
          exact ⟨Stroke.renamed_refl a b _, hname, rfl, h.flags, h.success, h.complaint,
            .inr ⟨rfl, rfl⟩⟩
      | notice n =>
          simp only [notify_eq, notifyStrokes_of_flags h.flags]
          refine ⟨Stroke.renamed_refl a b _, hname, rfl, h.flags, ?_, h.complaint,
            .inl hactivity⟩
          simp only [h.success]

theorem Twins.answer (h : Twins a b s t) (line : Line) :
    Twins a b (s.answer line) (t.answer line) := by
  cases line with
  | text line =>
      refine ⟨?_, ?_, h.flags, h.success, h.complaint, .inl rfl⟩
      · show (s.machine.enter line.toList).2.program.source = a
        rw [Machine.program_enter, h.name]
      · show (t.machine.enter line.toList).2 = _
        rw [h.machine, Machine.enter_named]
        rfl
  | finished =>
      refine ⟨?_, ?_, h.flags, h.success, h.complaint, .inl rfl⟩
      · have hprogram : s.machine.interrupt.program = s.machine.program := by
          unfold Machine.interrupt
          split <;> rfl
        show s.machine.interrupt.program.source = a
        rw [hprogram, h.name]
      · show t.machine.interrupt = _
        rw [h.machine, Machine.interrupt_named]
        rfl
  | malformed => exact ⟨h.name, h.machine, h.flags, h.success, rfl, .inl rfl⟩

/-- While the first shell runs its program, both do the same in a turn. -/
theorem Twins.turn (h : Twins a b s t) (he : s.isEngaged = true) (unread : List UInt8) :
    (t.turn draws unread).2 = (s.turn draws unread).2 ∧
      List.Forall₂ (Stroke.Renamed a b) (s.turnStrokes draws unread)
        (t.turnStrokes draws unread) ∧
      Twins a b (s.turn draws unread).1 (t.turn draws unread).1 := by
  have hactivity : t.activity = s.activity := by
    rcases h.activity with hsame | ⟨hover, _⟩
    · exact hsame
    · rw [isEngaged, hover, afterRun] at he
      split at he <;> simp at he
  unfold Shell.turn turnStrokes
  rw [hactivity]
  cases ha : s.activity with
  | driving =>
      obtain ⟨hstrokes, hnext⟩ := h.advance hactivity
      exact ⟨rfl, hstrokes, hnext⟩
  | answering =>
      have ha' : t.activity = .answering := hactivity.trans ha
      simp only [supply, supplyStrokes, ha, ha', true_and]
      exact ⟨.nil, h.answer _⟩
  | prompting => simp [isEngaged, ha] at he
  | done status => simp [isEngaged, ha] at he

theorem run_succ (draws : Draws) (turns : ℕ) (s : Shell) (unread : List UInt8) :
    Shell.run draws (turns + 1) s unread =
      Shell.run draws turns (s.turn draws unread).1 (s.turn draws unread).2 := rfl

/-- **Programs under different names are run alike**, turn by turn until the run is over. -/
theorem Twins.run (h : Twins a b s t) {turns : ℕ} {unread : List UInt8}
    (he : ∀ k < turns, (run draws k s unread).1.isEngaged = true) :
    (run draws turns t unread).2 = (run draws turns s unread).2 ∧
      List.Forall₂ (Stroke.Renamed a b) (runStrokes draws turns s unread)
        (runStrokes draws turns t unread) ∧
      Twins a b (run draws turns s unread).1 (run draws turns t unread).1 := by
  induction turns generalizing s t unread with
  | zero => exact ⟨rfl, .nil, h⟩
  | succ turns ih =>
      obtain ⟨hunread, hstrokes, hnext⟩ := h.turn (he 0 (by omega)) unread
      obtain ⟨hunread', hstrokes', hlast⟩ := ih hnext fun k hk => he (k + 1) (by omega)
      rw [run_succ, run_succ, runStrokes, runStrokes, hunread]
      exact ⟨hunread', List.rel_append hstrokes hstrokes', hlast⟩

end Shell
end TwinTape
