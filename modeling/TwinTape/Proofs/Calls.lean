import TwinTape.Proofs.Invariant

/-! # Calls of a host

A host makes its calls in any order.  `Machine.perform` gives the answer to a `Call` and the
machine after it.

A machine is `Halting` if it takes no step until a program is started: nothing runs, or the run
was asked to stop.  Whatever a host calls short of starting a program, such a machine tells the
notices it has, then the break it was asked for, and from then on that it has stopped; the
memories and the place in the program stay as they are (`Halting.performAll`).

A text that does not compile makes the machine halting, so the host gets the fault of the text
and nothing of the run before it.  There is one exception: a request to stop that was not answered
yet outlives the run it was meant for, and the host gets a break after the fault
(`runText_of_fault`, `break_after_fault`). -/

namespace TwinTape

/-! ### Calls and answers -/

/-- A call of a host. -/
inductive Call where
  | runText (source text : String)
  | load (program : Program)
  | execute (draws : Draws) (budget : ℕ)
  | enter (line : List Char)
  | interrupt
  | setTracing (on : Bool)

/-- The call is to start a program. -/
def Call.starts : Call → Bool
  | .runText _ _ => true
  | .load _ => true
  | _ => false

/-- The call asks for an event. -/
def Call.executes : Call → Bool
  | .execute _ _ => true
  | _ => false

/-- What a host gets for a call. -/
inductive Answer where
  | nothing
  | event (e : Event)
  /-- Whether a line was taken. -/
  | taken (yes : Bool)

/-- The event that is the answer. -/
def Answer.event? : Answer → Option Event
  | .event e => some e
  | _ => none

/-- The events among answers. -/
def Answer.events (answers : List Answer) : List Event := answers.filterMap Answer.event?

theorem Answer.events_cons (a : Answer) (answers : List Answer) :
    events (a :: answers) = a.event?.toList ++ events answers := by
  cases a <;> rfl

namespace Machine

/-- The answer to a call, and the machine after it. -/
def perform (m : Machine) : Call → Answer × Machine
  | .runText source text => (.nothing, m.runText source text)
  | .load program => (.nothing, m.load program)
  | .execute draws budget => (.event (m.execute draws budget).1, (m.execute draws budget).2)
  | .enter line => (.taken (m.enter line).1, (m.enter line).2)
  | .interrupt => (.nothing, m.interrupt)
  | .setTracing on => (.nothing, m.setTracing on)

/-- The answers to calls that are made one after the other, and the machine after them. -/
def performAll (m : Machine) : List Call → List Answer × Machine
  | [] => ([], m)
  | c :: calls =>
    ((m.perform c).1 :: ((m.perform c).2.performAll calls).1, ((m.perform c).2.performAll calls).2)

variable {m m' m'' : Machine} {c : Call}

theorem Reachable.perform (h : Reachable m) (c : Call) : Reachable (m.perform c).2 := by
  cases c with
  | runText source text => exact .runText source text h
  | load program => exact .load program h
  | execute draws budget => exact .execute draws budget h
  | enter line => exact .enter line h
  | interrupt => exact .interrupt h
  | setTracing on => exact .setTracing on h

theorem Reachable.performAll (h : Reachable m) (calls : List Call) :
    Reachable (m.performAll calls).2 := by
  induction calls generalizing m with
  | nil => exact h
  | cons c calls ih => exact ih (h.perform c)

theorem length_events_performAll (m : Machine) (calls : List Call) :
    (Answer.events (m.performAll calls).1).length = calls.countP Call.executes := by
  induction calls generalizing m with
  | nil => rfl
  | cons c calls ih =>
      rw [performAll, Answer.events_cons, List.length_append, ih, List.countP_cons, Nat.add_comm]
      cases c <;> rfl

/-! ### Machines that take no step -/

/-- The second machine has the memories of the first and is at the same place of its program. -/
structure Untouched (m m' : Machine) : Prop where
  global : m'.global = m.global
  «local» : m'.local = m.local
  program : m'.program = m.program
  counter : m'.counter = m.counter
  entered : m'.entered = m.entered

theorem Untouched.refl (m : Machine) : m.Untouched m := ⟨rfl, rfl, rfl, rfl, rfl⟩

theorem Untouched.trans (h : m.Untouched m') (h' : m'.Untouched m'') : m.Untouched m'' where
  global := h'.global.trans h.global
  «local» := h'.local.trans h.local
  program := h'.program.trans h.program
  counter := h'.counter.trans h.counter
  entered := h'.entered.trans h.entered

/-- Nothing runs, or the run was asked to stop. -/
def Halting (m : Machine) : Prop := m.isRunning = false ∨ m.interrupted = true

/-- What a halting machine has left to tell. -/
def farewell (m : Machine) : List Event :=
  m.queue.map .notice ++ if m.interrupted then [.notice (.fault m.breakFault)] else []

/-- What one call does to a halting machine. -/
structure Halts (m : Machine) (answer : Answer) (m' : Machine) : Prop where
  halting : m'.Halting
  untouched : m.Untouched m'
  told : m.farewell = answer.event?.toList ++ m'.farewell ∨
    (m.farewell = [] ∧ answer.event? = some .stopped ∧ m'.farewell = [])

theorem Halting.execute (h : m.Halting) (draws : Draws) (budget : ℕ) :
    m.Halts (.event (m.execute draws budget).1) (m.execute draws budget).2 := by
  cases hq : m.queue with
  | cons n queue =>
      rw [execute_of_queue hq]
      refine ⟨h, ⟨rfl, rfl, rfl, rfl, rfl⟩, .inl ?_⟩
      rw [farewell, hq]
      rfl
  | nil =>
      by_cases hi : m.interrupted = true
      · have hexec : m.execute draws budget =
            (.notice (.fault m.breakFault), { m.stop with interrupted := false }) := by
          simp [Machine.execute, hq, hi, breakFault]
        rw [hexec]
        refine ⟨.inl rfl, ⟨rfl, rfl, rfl, rfl, rfl⟩, .inl ?_⟩
        simp [farewell, hq, hi, stop, Answer.event?]
      · have hr : m.isRunning = false := h.resolve_right hi
        have hexec : m.execute draws budget = (.stopped, m) := by
          simp [Machine.execute, hq, hi, hr]
        have hfare : m.farewell = [] := by simp [farewell, hq, hi]
        rw [hexec]
        exact ⟨h, .refl m, .inr ⟨hfare, rfl, hfare⟩⟩

theorem Halting.enter (h : m.Halting) (line : List Char) :
    m.Halts (.taken (m.enter line).1) (m.enter line).2 := by
  unfold Machine.enter
  split
  · rename_i hw
    have hphase : m.phase = .waiting := by simpa [isWaiting] using hw
    have hi : m.interrupted = true := by
      refine h.resolve_left ?_
      simp [isRunning, hphase]
    exact ⟨.inr hi, ⟨rfl, rfl, rfl, rfl, rfl⟩, .inl rfl⟩
  · exact ⟨h, .refl m, .inl rfl⟩

theorem Halting.interrupt (h : m.Halting) : m.Halts .nothing m.interrupt := by
  unfold Machine.interrupt
  split
  · rename_i hr
    have hi : m.interrupted = true := by
      refine h.resolve_left ?_
      simp [hr]
    refine ⟨.inr rfl, ⟨rfl, rfl, rfl, rfl, rfl⟩, .inl ?_⟩
    simp [farewell, hi, breakFault, Answer.event?]
  · exact ⟨h, .refl m, .inl rfl⟩

/-- A call that starts no program leaves a halting machine as it is, but for what is told. -/
theorem Halting.perform (h : m.Halting) (hc : c.starts = false) :
    m.Halts (m.perform c).1 (m.perform c).2 := by
  cases c with
  | runText source text => simp [Call.starts] at hc
  | load program => simp [Call.starts] at hc
  | execute draws budget => exact h.execute draws budget
  | enter line => exact h.enter line
  | interrupt => exact h.interrupt
  | setTracing on => exact ⟨h, ⟨rfl, rfl, rfl, rfl, rfl⟩, .inl rfl⟩

/-- However a host calls a halting machine, it gets what the machine has left to tell and then
that it has stopped. -/
theorem Halting.performAll (h : m.Halting) {calls : List Call}
    (hcalls : ∀ c ∈ calls, c.starts = false) :
    Answer.events (m.performAll calls).1 <+:
      m.farewell ++ List.replicate calls.length .stopped ∧
    m.Untouched (m.performAll calls).2 := by
  induction calls generalizing m with
  | nil => exact ⟨List.nil_prefix, .refl m⟩
  | cons c calls ih =>
      obtain ⟨hc, hrest⟩ := List.forall_mem_cons.1 hcalls
      obtain ⟨hhalting, huntouched, htold⟩ := h.perform hc
      obtain ⟨hevents, huntouched'⟩ := ih hhalting hrest
      refine ⟨?_, huntouched.trans huntouched'⟩
      rw [Machine.performAll, Answer.events_cons, List.length_cons]
      rcases htold with htold | ⟨hempty, hstopped, hempty'⟩
      · rw [htold, List.append_assoc]
        refine List.prefix_append_right_inj _ |>.2 (hevents.trans ?_)
        rw [List.replicate_succ', ← List.append_assoc]
        exact List.prefix_append _ _
      · rw [hempty, hstopped, List.replicate_succ]
        rw [hempty'] at hevents
        simpa using hevents

/-! ### Texts that do not compile -/

/-- **A text that does not compile ends the run before it**: the first event is its fault, and
after that the machine has stopped for good.  A request to stop that was not answered yet comes
between the two. -/
theorem runText_of_fault {source text : String} {fault : Fault}
    (hf : Program.compile source text = .error fault) (m : Machine) {calls : List Call}
    (hcalls : ∀ c ∈ calls, c.starts = false) :
    Answer.events ((m.runText source text).performAll calls).1 =
      (.notice (.fault fault) ::
        ((if m.interrupted then [.notice (.fault m.breakFault)] else []) ++
          List.replicate calls.length .stopped)).take (calls.countP Call.executes) ∧
    ((m.runText source text).performAll calls).2.global = m.global ∧
    ((m.runText source text).performAll calls).2.local = m.local := by
  have hm : m.runText source text = { m.stop with queue := [.fault fault] } := by
    unfold runText
    rw [hf]
  have hhalting : (m.runText source text).Halting := by
    rw [hm]
    exact .inl rfl
  obtain ⟨hevents, huntouched⟩ := hhalting.performAll hcalls
  refine ⟨?_, ?_, ?_⟩
  · have hfare : (m.runText source text).farewell = .notice (.fault fault) ::
        if m.interrupted then [.notice (.fault m.breakFault)] else [] := by
      rw [hm]
      rfl
    rw [hfare] at hevents
    rw [← length_events_performAll (m.runText source text) calls]
    exact List.prefix_iff_eq_take.1 hevents
  · rw [huntouched.global, hm]
    rfl
  · rw [huntouched.local, hm]
    rfl

theorem compile_lone_command : Program.compile "t" "!" =
    .error ⟨.unterminated, some ⟨1, 2⟩, some "t", ""⟩ := by
  decide +kernel

/-- A machine that was stopped by a request for a number, traced and then given a line. -/
def givenLine : Machine :=
  ((((Machine.load {} (.ofCode "demo" [⟨.perform .local (.input .number), ⟨1, 1⟩⟩])).setTracing
    true).execute (fun _ => 0.5) 1).2.enter ['7', '\n']).2

/-- A run that was given a line is replaced by a text that does not compile. -/
theorem runText_of_fault_givenLine : Answer.events ((givenLine.runText "t" "!").performAll
      [.enter ['8'], .execute (fun _ => 0.5) 3, .interrupt, .execute (fun _ => 0.5) 3]).1 =
    [.notice (.fault ⟨.unterminated, some ⟨1, 2⟩, some "t", ""⟩), .stopped] :=
  (runText_of_fault compile_lone_command givenLine (by decide)).1

/-- A machine that was asked to stop and then got a text that does not compile. -/
def stoppedTooLate : Machine :=
  (Machine.load {} (.ofCode "demo" [⟨.act .global .once .increment, ⟨1, 1⟩⟩])).interrupt.runText
    "t" "!"

/-- The request to stop is told after the fault of the text, although nothing runs. -/
theorem break_after_fault : stoppedTooLate.isRunning = false ∧
    Answer.events (stoppedTooLate.performAll
      [.execute (fun _ => 0.5) 1, .execute (fun _ => 0.5) 1]).1 =
    [.notice (.fault ⟨.unterminated, some ⟨1, 2⟩, some "t", ""⟩),
      .notice (.fault ⟨.interrupted, some ⟨1, 1⟩, some "demo", ""⟩)] := by
  unfold stoppedTooLate runText
  rw [compile_lone_command]
  exact ⟨rfl, rfl⟩

end Machine
end TwinTape
