import TwinTape.Proofs.StraightLine

/-! # Programs without brackets halt

The bursts that an instruction takes are counted when it begins.  A step that goes on with a
repetition pays from what was counted then, and a step that asks for a line is paid by the request
(`Tallies`).  Each tick of a program without brackets is accounted for in this way, and each tick
that goes on comes nearer to the end, so the ticks come to an end (`exists_halts`) and the steps
are bounded by the instructions that have begun, which are the first ones of the program, each of
them once.  Calls with budgets take the same steps and hear the same events.

The main statement is `straight_line_halts`. -/

namespace TwinTape
variable {m : Machine} {p : Program} {lines : List (List Char)} {o : Option Event} {e : Event}
  {h h' : Host}

/-! ### Counting steps -/

/-- The event asks for a line. -/
def Event.isRequest : Event → Bool
  | .input _ => true
  | _ => false

namespace Moment
variable (ms ms' : List Moment)

/-- The machines that begin an instruction. -/
def begun : List Machine := (steps ms).filter Machine.isBeginning

/-- How often a line is asked for. -/
def requests : ℕ := (events ms).countP fun x => x.1.isRequest

/-- The steps that the instructions that have begun may take: one for each burst, and one for
each request. -/
def allowance : ℕ := ((begun ms).map fun x => burstCount x.repeatCount).sum + requests ms

@[simp] theorem begun_append : begun (ms ++ ms') = begun ms ++ begun ms' := by
  simp [begun]

theorem allowance_append : allowance (ms ++ ms') = allowance ms + allowance ms' := by
  simp only [allowance, requests, begun_append, events_append, List.map_append, List.sum_append,
    List.countP_append]
  omega

/-! What is not told does not count. -/

theorem steps_told : steps (told ms) = steps ms := by
  induction ms with
  | nil => rfl
  | cons x ms ih =>
      cases x with
      | step m => exact congrArg (m :: ·) ih
      | event e h =>
          by_cases he : e = .running
          · subst he
            exact ih
          · rw [told_event _ he]
            exact ih

theorem begun_told : begun (told ms) = begun ms := by
  rw [begun, begun, steps_told]

theorem mem_events_told {x : Event × Host} (hx : x ∈ events ms) :
    x.1 = .running ∨ x ∈ events (told ms) := by
  induction ms with
  | nil => simp at hx
  | cons y ms ih =>
      cases y with
      | step m => exact ih hx
      | event e h =>
          rw [events_event, List.mem_cons] at hx
          by_cases he : e = .running
          · subst he
            exact hx.elim (fun hx => .inl (by rw [hx])) ih
          · rw [told_event _ he, events_event, List.mem_cons]
            exact hx.elim (fun hx => .inr (.inl hx)) fun hx => (ih hx).imp id .inr

theorem requests_told : requests (told ms) = requests ms := by
  induction ms with
  | nil => rfl
  | cons x ms ih =>
      cases x with
      | step m => exact ih
      | event e h =>
          by_cases he : e = .running
          · subst he
            exact ih
          · rw [told_event _ he]
            simp only [requests, events_event, List.countP_cons] at ih ⊢
            rw [ih]

end Moment

/-- What the moments of a run have in common, between the hosts `h` and `h'`: the instructions
begin one after the other from the frontier on, and pay for the steps. -/
structure Tallies (p : Program) (h : Host) (ms : List Moment) (h' : Host) : Prop where
  addresses : (Moment.begun ms).map Machine.counter =
    List.range' h.machine.frontier (Moment.begun ms).length
  programs : ∀ x ∈ Moment.begun ms, x.program = p
  steps : (Moment.steps ms).length + h'.machine.owed ≤ Moment.allowance ms + h.machine.owed

theorem Tallies.append {h₁ : Host} {ms ms' : List Moment} (ht : Tallies p h ms h₁)
    (hfrontier : h₁.machine.frontier = h.machine.frontier + (Moment.begun ms).length)
    (ht' : Tallies p h₁ ms' h') : Tallies p h (ms ++ ms') h' where
  addresses := by
    rw [Moment.begun_append, List.map_append, ht.addresses, ht'.addresses, hfrontier,
      List.range'_append_1, List.length_append]
  programs := by
    rw [Moment.begun_append]
    exact List.forall_mem_append.2 ⟨ht.programs, ht'.programs⟩
  steps := by
    have hsteps := ht.steps
    have hsteps' := ht'.steps
    rw [Moment.steps_append, List.length_append, Moment.allowance_append]
    omega

namespace Machine

/-- What the beginning of an instruction counts, or has counted, covers the bursts left. -/
theorem covers_of_not_isAsking (hasking : m.isAsking = false) :
    (if m.isBeginning then burstCount m.repeatCount else 0) + m.owed = m.burstsLeft := by
  unfold owed burstsLeft isBeginning
  cases hu : m.unfinished? with
  | none => simp [hasking]
  | some r => simp

theorem owed_eq_zero (hp : ∀ r, m.phase ≠ .repeating r) : m.owed = 0 := by
  simp [owed, unfinished?_eq_none hp]

theorem frontier_of_isBeginning (hb : m.isBeginning = true) : m.frontier = m.counter := by
  simp only [isBeginning, Bool.and_eq_true, Option.isNone_iff_eq_none] at hb
  simp [frontier, hb.1]

theorem frontier_add_of_not_isAsking (hasking : m.isAsking = false) :
    m.frontier + (if m.isBeginning then 1 else 0) = m.counter + 1 := by
  unfold frontier isBeginning
  cases hu : m.unfinished? with
  | none => simp [hasking]
  | some r => simp

theorem isStepping_of_isAsking (ha : m.Active) (hasking : m.isAsking = true) :
    m.isStepping = true := by
  obtain ⟨_, hs⟩ := steps_of_isAsking (fun _ => 0) hasking
  exact isStepping_iff.2 ⟨ha, hs.lt_size⟩

theorem isBeginning_of_isAsking (hasking : m.isAsking = true) : m.isBeginning = false := by
  simp [isBeginning, hasking]

/-- A request pays for the step that makes it. -/
theorem paid_of_isAsking {after : Machine} {medium : Medium} (ha : m.Active)
    (hasking : m.isAsking = true) (howed : after.owed = 0) :
    (if m.isStepping then 1 else 0) + after.owed ≤
      (if m.isStepping ∧ m.isBeginning then burstCount m.repeatCount else 0) +
        (some (Event.input medium)).toList.countP Event.isRequest + m.owed := by
  simp only [isStepping_of_isAsking ha hasking, isBeginning_of_isAsking hasking, howed]
  exact Nat.le_add_right 1 m.owed

/-- Only a machine that has nothing to tell takes a step. -/
theorem isStepping_of_queue {n : Notice} {queue : List Notice} (hq : m.queue = n :: queue) :
    m.isStepping = false := by
  simp [isStepping, hq]

theorem paid_of_queue {n : Notice} {queue : List Notice} (hq : m.queue = n :: queue) (paid : ℕ) :
    (if m.isStepping then 1 else 0) + Machine.owed { m with queue := queue } ≤ paid + m.owed := by
  rw [isStepping_of_queue hq]
  exact Nat.add_le_add_right (Nat.zero_le paid) m.owed

end Machine

/-! ### Counting in a tick -/

section tick
variable {draws : Draws}

theorem begun_tickMoments (draws : Draws) (h : Host) : Moment.begun (h.tickMoments draws) =
    if h.machine.isStepping ∧ h.machine.isBeginning then [h.machine] else [] := by
  unfold Host.tickMoments Moment.begun
  by_cases hs : h.machine.isStepping = true <;> by_cases hb : h.machine.isBeginning = true <;>
    cases (h.tick draws).1 <;> simp [hs, hb]

theorem steps_tickMoments (draws : Draws) (h : Host) : (Moment.steps (h.tickMoments draws)).length =
    if h.machine.isStepping then 1 else 0 := by
  unfold Host.tickMoments
  by_cases hs : h.machine.isStepping = true <;> cases (h.tick draws).1 <;> simp [hs]

theorem allowance_tickMoments (draws : Draws) (h : Host) :
    Moment.allowance (h.tickMoments draws) =
      (if h.machine.isStepping ∧ h.machine.isBeginning then burstCount h.machine.repeatCount else 0) +
        (h.tick draws).1.toList.countP Event.isRequest := by
  rw [Moment.allowance, begun_tickMoments, Moment.requests, Host.events_tickMoments]
  congr 1
  · split <;> simp
  · cases (h.tick draws).1 <;> rfl

/-- A tick is accounted for if its step is paid for. -/
theorem tallies_tick (hprogram : m.program = p) (ht : Host.tick draws ⟨m, lines⟩ = (o, h'))
    (hpaid : (if m.isStepping then 1 else 0) + h'.machine.owed ≤
      (if m.isStepping ∧ m.isBeginning then burstCount m.repeatCount else 0) +
        o.toList.countP Event.isRequest + m.owed) :
    Tallies p ⟨m, lines⟩ (Host.tickMoments draws ⟨m, lines⟩) h' where
  addresses := by
    rw [begun_tickMoments]
    split
    · rename_i hb
      simp [Machine.frontier_of_isBeginning hb.2]
    · rfl
  programs := by
    rw [begun_tickMoments]
    split
    · simpa using hprogram
    · simp
  steps := by
    rw [steps_tickMoments, allowance_tickMoments, ht]
    exact hpaid

theorem Goes.tallies (hg : Goes p m lines o h') (hm : m.Underway p)
    (ht : Host.tick draws ⟨m, lines⟩ = (o, h')) :
    Tallies p ⟨m, lines⟩ (Host.tickMoments draws ⟨m, lines⟩) h' := by
  refine tallies_tick hm.program ht ?_
  cases hg with
  | tells hq => exact Machine.paid_of_queue hq _
  | asks ha hasking => exact Machine.paid_of_isAsking ha hasking rfl
  | @completes _ after ha hasking hlt _ hphase =>
      have hstepping : m.isStepping = true := Machine.isStepping_iff.2 ⟨ha, hm.program ▸ hlt⟩
      have hcovers := Machine.covers_of_not_isAsking hasking
      have howed : after.owed = 0 := Machine.owed_eq_zero (by simp [hphase])
      have hpos : 0 < m.burstsLeft := Machine.burstCount_pos _
      simp only [hstepping, howed, true_and, if_true, Option.toList_none, List.countP_nil]
      omega
  | @repeats _ after r ha hasking hlt _ hphase _ _ hr =>
      have hstepping : m.isStepping = true := Machine.isStepping_iff.2 ⟨ha, hm.program ▸ hlt⟩
      have hcovers := Machine.covers_of_not_isAsking hasking
      have howed : after.owed = burstCount r.left := by
        simp [Machine.owed, Machine.unfinished?_of_repeating hphase]
      simp only [hstepping, howed, true_and, if_true, Option.toList_none, List.countP_nil]
      omega

theorem Closes.tallies (hc : Closes m lines e h') (hm : m.Underway p)
    (ht : Host.tick draws ⟨m, lines⟩ = (some e, h')) :
    Tallies p ⟨m, lines⟩ (Host.tickMoments draws ⟨m, lines⟩) h' := by
  refine tallies_tick hm.program ht ?_
  cases hc with
  | tells hq => exact Machine.paid_of_queue hq _
  | @ends _ _ after ha _ hphase hb =>
      have howed : after.owed = 0 := Machine.owed_eq_zero (by simp [hphase])
      by_cases hs : m.isStepping = true
      · have hbegins := hb (Machine.isStepping_iff.1 hs).2
        have hpos := Machine.burstCount_pos m.repeatCount
        simp only [hs, hbegins, howed, and_self, if_true]
        omega
      · simp [hs, howed]
  | starves ha hasking => exact Machine.paid_of_isAsking ha hasking rfl

theorem Goes.frontier (hg : Goes p m lines o h') (hm : m.Underway p) (draws : Draws) :
    h'.machine.frontier = m.frontier +
      (Moment.begun (Host.tickMoments draws ⟨m, lines⟩)).length := by
  have hlength : (Moment.begun (Host.tickMoments draws ⟨m, lines⟩)).length =
      if m.isStepping ∧ m.isBeginning then 1 else 0 := by
    rw [begun_tickMoments]
    split <;> rfl
  rw [hlength]
  cases hg with
  | tells hq =>
      rw [Machine.isStepping_of_queue hq]
      rfl
  | asks ha hasking =>
      have hunfinished := Machine.unfinished?_of_isAsking hm.coherent hasking
      simp [Machine.isBeginning_of_isAsking hasking, Machine.frontier, hunfinished]
  | @completes _ after ha hasking hlt _ hphase hcounter =>
      have hstepping : m.isStepping = true := Machine.isStepping_iff.2 ⟨ha, hm.program ▸ hlt⟩
      have hnone := Machine.unfinished?_eq_none (m := after) (by simp [hphase])
      simp only [hstepping, true_and, Machine.frontier_add_of_not_isAsking hasking]
      simp [Machine.frontier, hnone, hcounter]
  | @repeats _ after r ha hasking hlt _ hphase hcounter =>
      have hstepping : m.isStepping = true := Machine.isStepping_iff.2 ⟨ha, hm.program ▸ hlt⟩
      simp only [hstepping, true_and, Machine.frontier_add_of_not_isAsking hasking]
      simp [Machine.frontier, Machine.unfinished?_of_repeating hphase, hcounter]

end tick

/-! ### Whole runs -/

/-- The run of a host: some ticks that go on, with the moments `ms`, and a last one, with the event
`e`, before which the host is `last`. -/
structure Halts (p : Program) (draws : Draws) (h : Host) (ms : List Moment) (last : Host)
    (e : Event) (h' : Host) : Prop where
  ticks : ∃ k, h.tickCourse draws k = (ms, last)
  tells : last.tick draws = (some e, h')
  goes : ∀ x ∈ Moment.events ms, ¬ x.1.isFinal
  tallies : Tallies p h (ms ++ last.tickMoments draws) h'
  final : e.isFinal ∨ e.isRequest ∧ h'.lines = []
  answered : h.Stocked → e.isFinal

theorem Closes.isFinal_or (hc : Closes m lines e h') :
    e.isFinal ∨ e.isRequest ∧ h'.lines = [] := by
  cases hc with
  | tells _ hn => exact .inl hn
  | ends _ he => exact .inl he
  | starves => exact .inr ⟨rfl, rfl⟩

theorem Closes.halts {draws : Draws} (hc : Closes m lines e h') (hm : m.Underway p)
    (ht : Host.tick draws ⟨m, lines⟩ = (some e, h')) :
    Halts p draws ⟨m, lines⟩ [] ⟨m, lines⟩ e h' where
  ticks := ⟨0, rfl⟩
  tells := ht
  goes := by simp
  tallies := hc.tallies hm ht
  final := hc.isFinal_or
  answered := hc.isFinal_of_stocked

/-- A tick that goes on comes before a run. -/
theorem Goes.halts {draws : Draws} {ms : List Moment} {h₁ last : Host}
    (hg : Goes p m lines o h₁) (hm : m.Underway p) (ht : Host.tick draws ⟨m, lines⟩ = (o, h₁))
    (hrun : Halts p draws h₁ ms last e h') :
    Halts p draws ⟨m, lines⟩ (Host.tickMoments draws ⟨m, lines⟩ ++ ms) last e h' where
  ticks := by
    obtain ⟨k, hk⟩ := hrun.ticks
    exact ⟨k + 1, by rw [Host.tickCourse, ht, hk]⟩
  tells := hrun.tells
  goes := by
    intro x hx
    rw [Moment.events_append, Host.events_tickMoments, ht] at hx
    rcases List.mem_append.1 hx with hx | hx
    · cases o with
      | none => simp at hx
      | some e =>
          obtain rfl : x = (e, h₁) := by simpa using hx
          exact hg.not_isFinal
    · exact hrun.goes x hx
  tallies := by
    rw [List.append_assoc]
    exact (hg.tallies hm ht).append (hg.frontier hm draws) hrun.tallies
  final := hrun.final
  answered := fun hs => hrun.answered (hg.stocked hm hs)

/-- **The ticks of a program without brackets come to an end.** -/
theorem exists_halts (hp : p.BracketFree) (draws : Draws) (h : Host) (hm : h.machine.Underway p) :
    ∃ ms last e h', Halts p draws h ms last e h' := by
  obtain ⟨m, lines⟩ := h
  -- The induction is on the distance to the end, which each tick that goes on makes smaller.
  induction hd : m.distance using WellFoundedLT.induction generalizing m lines with
  | ind d ih =>
      subst hd
      rcases hm.tick_cases hp draws lines with hg | ⟨e, h', ht, hc⟩
      · obtain ⟨ms, last, e, h', hrun⟩ := ih _ (hg.distance_lt hm) _ _ (hg.underway hm) rfl
        exact ⟨_, _, _, _, hg.halts hm rfl hrun⟩
      · exact ⟨_, _, _, _, hc.halts hm ht⟩

/-! ### From ticks to calls -/

namespace Host
variable {draws : Draws} {budgets : ℕ → ℕ} {last : Host} {k : ℕ} {ms : List Moment}

theorem tickMoments_of_tells (ht : h.tick draws = (some e, h')) : h.tickMoments draws =
    (if h.machine.isStepping then [.step h.machine] else []) ++ [.event e h'] := by
  simp [tickMoments, ht]

theorem call_of_tells (ht : h.tick draws = (some e, h')) {budget : ℕ}
    (hb : 0 < budget ∨ ¬ h.machine.Active) :
    h.callMoments draws budget = h.tickMoments draws ∧ (h.call draws budget).2 = h' := by
  rcases hb with hpos | ha
  · obtain ⟨left, rfl⟩ : ∃ left, budget = left + 1 := ⟨budget - 1, by omega⟩
    obtain ⟨hm, hcall⟩ := call_of_tick_some ht left
    exact ⟨hm, by rw [hcall]⟩
  · obtain ⟨e', ht', hm⟩ := call_of_not_active draws ha budget
    rw [ht] at ht'
    exact ⟨hm, (Prod.mk.inj ht').2.symm⟩

theorem exists_course_of_tells (hb : ∀ i, 0 < budgets (i + 1))
    (ht : h.tick draws = (some e, h')) :
    ∃ n xs, h.course draws budgets (n + 1) = (xs ++ [.event e h'], h') ∧
      Moment.told xs ++ [.event e h'] = h.tickMoments draws := by
  have htold : Moment.told (if h.machine.isStepping then [.step h.machine] else []) =
      if h.machine.isStepping then [.step h.machine] else [] := by split <;> rfl
  have hmoments := tickMoments_of_tells ht
  by_cases hfirst : 0 < budgets 0 ∨ ¬ h.machine.Active
  · obtain ⟨hm, hcall⟩ := call_of_tells ht hfirst
    refine ⟨0, if h.machine.isStepping then [.step h.machine] else [], ?_, ?_⟩
    · rw [course, hm, hcall, hmoments]
      simp [course]
    · rw [htold, hmoments]
  · obtain ⟨hzero, ha⟩ := not_or.1 hfirst
    obtain ⟨hm₀, hcall₀⟩ := call_zero draws (not_not.1 ha)
    obtain ⟨hm, hcall⟩ := call_of_tells ht (.inl (hb 0))
    refine ⟨1, .event .running h :: if h.machine.isStepping then [.step h.machine] else [], ?_, ?_⟩
    · rw [course, Nat.eq_zero_of_not_pos hzero, hm₀, hcall₀]
      rw [course, hm, hcall, hmoments]
      simp [course]
    · rw [Moment.told_running, htold, hmoments]

theorem exists_course_of_ticks (hb : ∀ i, 0 < budgets i) (hk : h.tickCourse draws k = (ms, last))
    (ht : last.tick draws = (some e, h')) :
    ∃ n xs, h.course draws budgets n = (xs ++ [.event e h'], h') ∧
      Moment.told xs ++ [.event e h'] = ms ++ last.tickMoments draws := by
  obtain ⟨budgets₁, hcomes⟩ := comesBy_ticks draws k h fun i => hb (i + 1)
  rw [hk] at hcomes
  have hpos := hcomes.pos fun i => hb (i + 1)
  obtain ⟨calls, xs, rfl, _, _, hcourse⟩ := hcomes
  obtain ⟨n, ys, hys, htold⟩ := exists_course_of_tells hpos ht
  refine ⟨calls + (n + 1), xs ++ ys, ?_, ?_⟩
  · rw [hcourse, hys, List.append_assoc]
  · rw [Moment.told_append, List.append_assoc, htold]

end Host

/-- **Programs without brackets halt**, whatever the memory, the reports and the budgets are.  The
host hears the last event after finitely many calls, or a request that it has no line for, which
does not happen if it has a line for each instruction that reads one.  The instructions begin one
after the other from the first one on, and the steps are at most the bursts of those that begin
and one for each request. -/
theorem straight_line_halts (hp : p.BracketFree) (m : Machine) (draws : Draws)
    (lines : List (List Char)) {budgets : ℕ → ℕ} (hb : ∀ i, 0 < budgets i) :
    ∃ n ms e after,
      (⟨m.load p, lines⟩ : Host).course draws budgets n = (ms ++ [.event e after], after) ∧
      (∀ x ∈ Moment.events ms, ¬ x.1.isFinal) ∧
      (e.isFinal ∨ e.isRequest ∧ after.lines = []) ∧
      (p.instructions.countP Instruction.asks ≤ lines.length → e.isFinal) ∧
      (Moment.steps ms).length ≤
        ((Moment.begun ms).map fun x => max 1 ((x.repeatCount + 1023) / 1024)).sum +
          Moment.requests (ms ++ [.event e after]) ∧
      (Moment.begun ms).map Machine.counter = List.range (Moment.begun ms).length ∧
      ∀ x ∈ Moment.begun ms, x.program = p ∧ x.repeatCount ≤ 2 ^ 63 := by
  obtain ⟨ms, last, e, after, hrun⟩ :=
    exists_halts hp draws ⟨m.load p, lines⟩ (Machine.underway_load m p)
  obtain ⟨k, hk⟩ := hrun.ticks
  obtain ⟨n, xs, hcourse, htold⟩ := Host.exists_course_of_ticks hb hk hrun.tells
  have htallies := hrun.tallies
  rw [← htold] at htallies
  have hbegun : Moment.begun (Moment.told xs ++ [.event e after]) = Moment.begun xs := by
    rw [Moment.begun_append, Moment.begun_told]
    exact List.append_nil _
  have hsteps : Moment.steps (Moment.told xs ++ [.event e after]) = Moment.steps xs := by
    rw [Moment.steps_append, Moment.steps_told]
    exact List.append_nil _
  have hrequests : Moment.requests (Moment.told xs ++ [.event e after]) =
      Moment.requests (xs ++ [.event e after]) := by
    have hadd : ∀ ys, Moment.requests (ys ++ [.event e after]) =
        Moment.requests ys + Moment.requests [.event e after] := fun ys => by
      simp [Moment.requests]
    rw [hadd, hadd, Moment.requests_told]
  refine ⟨n, xs, e, after, hcourse, ?_, hrun.final, hrun.answered, ?_, ?_, ?_⟩
  · intro x hx
    rcases Moment.mem_events_told xs hx with hrunning | hx
    · rw [hrunning]
      exact Bool.false_ne_true
    · rw [Host.tickMoments_of_tells hrun.tells, ← List.append_assoc] at htold
      rw [List.append_cancel_right htold, Moment.events_append] at hx
      rcases List.mem_append.1 hx with hx | hx
      · exact hrun.goes x hx
      · split at hx <;> simp at hx
  · have hbound := htallies.steps
    rw [hsteps, Moment.allowance, hbegun, hrequests] at hbound
    exact (Nat.le_add_right _ _).trans hbound
  · have haddresses := htallies.addresses
    rw [hbegun] at haddresses
    rw [haddresses, List.range_eq_range']
    rfl
  · intro x hx
    rw [← hbegun] at hx
    exact ⟨htallies.programs x hx, x.repeatCount_le⟩

/-- Reads a number, adds as often as the number says, and prints. -/
def Program.readAndRepeat : Program :=
  .ofCode "demo" [⟨.perform .global (.input .number), ⟨1, 1⟩⟩,
    ⟨.act .global .byCell .increment, ⟨1, 4⟩⟩, ⟨.perform .global (.output .number), ⟨1, 8⟩⟩]

/-- With one line it comes to its end, in a session that reports and has calls of different
lengths. -/
theorem straight_line_halts_readAndRepeat : Program.readAndRepeat.BracketFree ∧
    ∃ n ms e after,
      (⟨Machine.tracedSession.load .readAndRepeat, [['9', '9', '9', '9']]⟩ : Host).course
        (fun _ => 0.5) (fun i => i + 1) n = (ms ++ [.event e after], after) ∧ e.isFinal ∧
      (Moment.steps ms).length ≤
        ((Moment.begun ms).map fun x => max 1 ((x.repeatCount + 1023) / 1024)).sum +
          Moment.requests (ms ++ [.event e after]) := by
  have hfree : Program.readAndRepeat.BracketFree := by decide
  obtain ⟨n, ms, e, after, hcourse, _, _, hfinal, hsteps, _⟩ :=
    straight_line_halts hfree Machine.tracedSession (fun _ => 0.5) [['9', '9', '9', '9']]
      (fun i => Nat.succ_pos i)
  exact ⟨hfree, n, ms, e, after, hcourse, hfinal (by decide), hsteps⟩

end TwinTape
