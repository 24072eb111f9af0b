import TwinTape.Proofs.Sessions

/-! # Interrupts

A program that runs and is asked to stop takes no further step, wherever it is: between two
instructions, in the middle of a repetition, or with a line that it has asked for and not yet read.
The host gets the notices that are left, then one break with the place of the next instruction, and
then that nothing runs, whatever it calls short of starting a program (`interrupt_stops_run`).

The machine is `Halting` from the request on, so the order in which the host is told is that of
`Halting.performAll`.  What is added here is that no call takes a step (`Halting.still`), and that
the events are all those there are and no others (`Halting.events_performAll`). -/

namespace TwinTape.Machine

variable {m : Machine} {c : Call} {calls : List Call}

/-! ### Machines that are asked to stop -/

theorem halting_interrupt (m : Machine) : m.interrupt.Halting := by
  unfold interrupt
  split
  · exact .inr rfl
  · rename_i hr
    exact .inl (by simpa using hr)

theorem Halting.steps_eq_nil (h : m.Halting) (c : Call) : Exchange.steps ⟨m, c⟩ = [] := by
  have hnot : ¬ m.Active := by
    intro ha
    rcases h with hr | hi
    · exact absurd (hr.symm.trans ha.running) Bool.false_ne_true
    · exact absurd (ha.interrupted.symm.trans hi) Bool.false_ne_true
  cases c with
  | execute draws budget => exact steps_of_not_active hnot budget
  | _ => rfl

/-- Until a program is started, no call takes a step, and each leaves the machine at its place. -/
theorem Halting.still (h : m.Halting) (hcalls : ∀ c ∈ calls, c.starts = false) :
    ∀ x ∈ m.exchanges calls, x.steps = [] ∧ m.Untouched x.after := by
  induction calls generalizing m with
  | nil => simp [exchanges]
  | cons c calls ih =>
      obtain ⟨hc, hrest⟩ := List.forall_mem_cons.1 hcalls
      obtain ⟨hhalting, huntouched, _⟩ := h.perform hc
      refine List.forall_mem_cons.2 ⟨⟨h.steps_eq_nil c, huntouched⟩, fun x hx => ?_⟩
      obtain ⟨hsteps, hafter⟩ := ih hhalting hrest x hx
      exact ⟨hsteps, huntouched.trans hafter⟩

/-- What a halting machine tells is what it has left to tell, and then only that it has stopped. -/
theorem Halting.events_performAll (h : m.Halting) (hcalls : ∀ c ∈ calls, c.starts = false) :
    Answer.events (m.performAll calls).1 =
      List.take (calls.countP Call.executes)
        (m.farewell ++ List.replicate calls.length .stopped) := by
  rw [← length_events_performAll m calls]
  exact List.prefix_iff_eq_take.1 (h.performAll hcalls).1

/-! ### The break -/

/-- What a host gets from a run that it has asked to stop, for calls that start no program. -/
structure BreaksOff (m : Machine) (calls : List Call) : Prop where
  /-- At most one notice is left, a report of the instruction before. -/
  queue : m.queue = [] ∨ ∃ a, m.queue = [.trace a]
  /-- The notices come first and in order, then one break, and then the machine has stopped for
  good. -/
  told : Answer.events (m.interrupt.performAll calls).1 =
    List.take (calls.countP Call.executes)
      (m.queue.map .notice ++
        .notice (.fault ⟨.interrupted, some (m.program.position m.counter),
          some m.program.source, ""⟩) :: List.replicate calls.length .stopped)
  /-- After each call the memories, the counter and the brackets entered are as they were at the
  request, and no step is taken. -/
  still : ∀ x ∈ m.interrupt.exchanges calls, x.steps = [] ∧ m.Untouched x.after

/-- **An interrupt stops the run before any further instruction.** -/
theorem interrupt_stops_run (h : Reachable m) (hr : m.isRunning = true)
    (hcalls : ∀ c ∈ calls, c.starts = false) : m.BreaksOff calls := by
  have hinterrupt : m.interrupt = { m with interrupted := true } := by
    simp [interrupt, hr]
  have huntouched : m.Untouched m.interrupt := by
    rw [hinterrupt]
    exact ⟨rfl, rfl, rfl, rfl, rfl⟩
  refine ⟨?_, ?_, ?_⟩
  · rcases h.coherent_quiet.2 with hq | ha | ⟨_, _, _, _, _, hidle⟩
    · exact .inl hq
    · exact .inr ha
    · exact absurd (hidle.symm.trans hr) Bool.false_ne_true
  · have hfarewell : m.interrupt.farewell = m.queue.map .notice ++
        [.notice (.fault ⟨.interrupted, some (m.program.position m.counter),
          some m.program.source, ""⟩)] := by
      rw [hinterrupt]
      rfl
    rw [m.halting_interrupt.events_performAll hcalls, hfarewell, List.append_assoc,
      List.singleton_append]
  · intro x hx
    obtain ⟨hsteps, hafter⟩ := m.halting_interrupt.still hcalls x hx
    exact ⟨hsteps, huntouched.trans hafter⟩

/-- A traced machine that has done the first burst of a long walk to the right. -/
def onTheWay : Machine :=
  (((load {} (.ofCode "demo" [⟨.act .local (.times 2000) .moveRight, ⟨1, 3⟩⟩])).setTracing
    true).execute (fun _ => 0.5) 1).2

/-- The walk breaks off after the first burst, whatever the host tries. -/
theorem interrupt_stops_run_onTheWay :
    onTheWay.phase = .repeating ⟨.moveRight, 976, false⟩ ∧ onTheWay.local.first.cursor = 1024 ∧
    Answer.events (onTheWay.interrupt.performAll [.enter ['7'], .execute (fun _ => 0.5) 0,
      .setTracing false, .interrupt, .execute (fun _ => 0.5) 9, .execute (fun _ => 0.5) 9]).1 =
      [.notice (.fault ⟨.interrupted, some ⟨1, 3⟩, some "demo", ""⟩), .stopped, .stopped] := by
  have hreach : Reachable onTheWay := .execute _ _ (.setTracing _ (.load _ .new))
  have hbreaks : onTheWay.BreaksOff [.enter ['7'], .execute (fun _ => 0.5) 0, .setTracing false,
      .interrupt, .execute (fun _ => 0.5) 9, .execute (fun _ => 0.5) 9] :=
    interrupt_stops_run hreach (by decide +kernel) (by decide)
  have hqueue : onTheWay.queue = [] := List.isEmpty_iff.1 (by decide +kernel)
  have hposition : onTheWay.program.position onTheWay.counter = ⟨1, 3⟩ := by decide +kernel
  have hsource : onTheWay.program.source = "demo" := by decide +kernel
  refine ⟨by decide +kernel, by decide +kernel, ?_⟩
  rw [hbreaks.told, hqueue, hposition, hsource]
  rfl

end TwinTape.Machine
