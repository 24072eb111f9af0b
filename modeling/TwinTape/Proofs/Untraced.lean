import TwinTape.Proofs.Congruence
import TwinTape.Proofs.Courses

/-! # A machine without reports

`Machine.untraced` takes the reports of executed instructions away from a machine: those that wait
to be told, and the wish for more of them.  A tick that tells a report changes nothing else, and
every other tick is a tick of the machine without reports (`tick_of_trace`, `tick_untraced`).

A host may switch the reports on and off between its calls (`Host.watch`).  Whatever it does, each
of its calls is a row of ticks of the machine without reports (`shadows_call`), and if no budget is
empty, it gets as far as any such ticks lead (`exists_shadows_le`).  So what it hears, but for the
reports, is what is heard of the machine without reports (`exists_heard_of_watch`,
`exists_watch_of_heard`). -/

namespace TwinTape

/-- The event is neither a report nor the end of a budget. -/
def Event.isPlain : Event → Bool
  | .running => false
  | .notice (.trace _) => false
  | _ => true

namespace Machine
variable {draws : Draws} {m : Machine}

/-! ### Steps -/

/-- The machine without reports. -/
def untraced (m : Machine) : Machine :=
  { m with tracing := false, queue := m.queue.filter (·.address?.isNone) }

@[simp] theorem program_untraced (m : Machine) : m.untraced.program = m.program := rfl

@[simp] theorem counter_untraced (m : Machine) : m.untraced.counter = m.counter := rfl

@[simp] theorem interrupted_untraced (m : Machine) : m.untraced.interrupted = m.interrupted := rfl

@[simp] theorem isRunning_untraced (m : Machine) : m.untraced.isRunning = m.isRunning := rfl

theorem congruence_untraced (draws : Draws) :
    Congruence draws draws (fun _ => True) 0 (fun m m' => m' = m.untraced) where
  phase := by rintro m _ rfl; rfl
  counter := by rintro m _ rfl; rfl
  memory := by rintro m _ s rfl -; cases s <;> rfl
  draw := by rintro m _ rfl; rfl
  entered := by rintro m _ s rfl -; rfl
  setPhase := by rintro m _ rfl p; rfl
  goto := by rintro m _ rfl a; rfl
  setMemory := by rintro m _ s rfl - x; cases s <;> rfl
  setDrawn := by rintro m _ rfl; rfl
  push := by rintro m _ rfl n hn; simp [untraced, push, hn]
  mark := by rintro m _ rfl; rfl
  unmark := by rintro m _ rfl; rfl

/-- A machine without reports takes the same steps. -/
theorem step_untraced (draws : Draws) (m : Machine) :
    m.untraced.step draws = mapResult untraced (m.step draws) :=
  ((congruence_untraced draws).step rfl rfl fun _ _ =>
    ⟨trivial, fun _ _ => trivial⟩).eq_mapResult

theorem enter_untraced (m : Machine) (line : List Char) :
    (m.untraced.enter line).2 = (m.enter line).2.untraced :=
  ((congruence_untraced fun _ => 0).enter rfl line).2

/-! ### Ticks -/

theorem traced_untraced (m : Machine) (a : ℕ) : m.untraced.traced a = (m.traced a).untraced := by
  have hnone : m.untraced.traced a = m.untraced := by
    unfold traced
    split <;> rfl
  rw [hnone]
  rcases traced_eq_or m a with h | h
  · rw [h]
  · rw [h]
    simp [untraced, push, Notice.address?]

/-- A tick that tells no report is a tick of the machine without reports. -/
theorem tick_untraced (draws : Draws) (hq : ∀ a queue, m.queue ≠ .trace a :: queue) :
    m.untraced.tick draws = ((m.tick draws).1, (m.tick draws).2.untraced) := by
  cases hqueue : m.queue with
  | cons n queue =>
      have hn : n.address? = none := by
        cases n with
        | trace a => exact absurd hqueue (hq a queue)
        | print | warning | fault => rfl
      have hqueue' : m.untraced.queue = n :: queue.filter (·.address?.isNone) := by
        simp [untraced, hqueue, hn]
      rw [tick_of_queue hqueue, tick_of_queue hqueue']
      rfl
  | nil =>
      have hqueue' : m.untraced.queue = [] := by simp [untraced, hqueue]
      by_cases hi : m.interrupted = true
      · simp only [tick, hqueue, hqueue', interrupted_untraced, hi, if_true]
        rfl
      · by_cases hr : m.isRunning = true
        · have ha : m.Active := ⟨hqueue, by simpa using hi, hr⟩
          have ha' : m.untraced.Active := ⟨hqueue', ha.interrupted, hr⟩
          rw [ha.tick_eq, ha'.tick_eq, step_untraced, program_untraced, counter_untraced]
          by_cases hc : m.program.size ≤ m.counter
          · rw [if_pos hc, if_pos hc]
            rfl
          · rw [if_neg hc, if_neg hc]
            cases m.step draws with
            | error fault => rfl
            | ok p =>
                obtain ⟨next, _ | medium⟩ := p
                · simp only [mapResult, Except.map, traced_untraced]
                · rfl
        · simp [tick, hqueue, hqueue', hi, hr]

/-- A report that is told was waiting. -/
theorem queue_of_tick_trace {a : ℕ} (h : (m.tick draws).1 = some (.notice (.trace a))) :
    ∃ queue, m.queue = .trace a :: queue := by
  unfold tick at h
  split at h
  · cases h
    exact ⟨_, ‹_›⟩
  · repeat' split at h
    all_goals simp at h

end Machine

/-! ### Hosts -/

namespace Host
variable {draws : Draws} {h h' : Host} {budgets budgets' : ℕ → ℕ} {switches : ℕ → List Bool}
  {e : Event} {n k j : ℕ} {xs : List (Event × Host)}

/-- The host of the machine without reports. -/
def untraced (h : Host) : Host := ⟨h.machine.untraced, h.lines⟩

/-- The next tick tells a report. -/
def IsReporting (h : Host) : Prop := ∃ a queue, h.machine.queue = .trace a :: queue

theorem untraced_receive (e : Event) (m : Machine) (lines : List (List Char)) :
    (receive e m lines).untraced = receive e m.untraced lines := by
  unfold receive
  split
  · rw [Machine.enter_untraced]
    rfl
  · rfl

theorem tick_untraced (draws : Draws) (hr : ¬ h.IsReporting) :
    h.untraced.tick draws = ((h.tick draws).1, (h.tick draws).2.untraced) := by
  have hm := Machine.tick_untraced draws fun a queue hq => hr ⟨a, queue, hq⟩
  unfold tick untraced
  rcases ht : h.machine.tick draws with ⟨_ | e, m⟩
  · simp [hm, ht]
  · simp only [hm, ht]
    rw [← untraced_receive]
    rfl

theorem tick_of_trace (draws : Draws) {a : ℕ} {queue : List Notice}
    (hq : h.machine.queue = .trace a :: queue) :
    h.tick draws = (some (.notice (.trace a)), ⟨{ h.machine with queue := queue }, h.lines⟩) ∧
      untraced ⟨{ h.machine with queue := queue }, h.lines⟩ = h.untraced := by
  refine ⟨by simp [tick, Machine.tick_of_queue hq, receive], ?_⟩
  simp [untraced, Machine.untraced, hq, Notice.address?]

/-! ### What is heard but for reports -/

theorem isPlain_of_tick (hr : ¬ h.IsReporting) (ht : (h.tick draws).1 = some e) :
    e.isPlain = true := by
  have hmachine : (h.machine.tick draws).1 = some e := by
    unfold tick at ht
    split at ht
    · rename_i hm
      rw [hm]
      exact ht
    · contradiction
  have hrunning := h.machine.tick_ne_running draws
  cases e with
  | running => exact absurd hmachine hrunning
  | stopped | input => rfl
  | notice what =>
      cases what with
      | trace a =>
          obtain ⟨queue, hq⟩ := Machine.queue_of_tick_trace hmachine
          exact absurd ⟨a, queue, hq⟩ hr
      | print | warning | fault => rfl

/-- The events other than reports and ends of budgets, each with the host after it.  The reports are
taken away from the host too; its memories and all else that belongs to the run stay. -/
def plain (xs : List (Event × Host)) : List (Event × Host) :=
  (xs.filter (·.1.isPlain)).map fun (e, h) => (e, h.untraced)

@[simp] theorem plain_append (xs ys : List (Event × Host)) :
    plain (xs ++ ys) = plain xs ++ plain ys := by
  simp [plain]

/-- Switches the reports on and off, as often as the list says. -/
def switch (h : Host) (ons : List Bool) : Host :=
  ⟨ons.foldl Machine.setTracing h.machine, h.lines⟩

/-- The events of the first `n` calls, each with the host after it; before call number `i` the
reports are switched as `switches i` says. -/
def watch (draws : Draws) (budgets : ℕ → ℕ) (switches : ℕ → List Bool) :
    ℕ → Host → List (Event × Host) × Host
  | 0, h => ([], h)
  | n + 1, h =>
    let first := (h.switch (switches 0)).call draws (budgets 0)
    let rest := watch draws (fun i => budgets (i + 1)) (fun i => switches (i + 1)) n first.2
    (first :: rest.1, rest.2)

theorem untraced_switch (h : Host) (ons : List Bool) : (h.switch ons).untraced = h.untraced := by
  induction ons generalizing h with
  | nil => rfl
  | cons on ons ih => exact ih ⟨h.machine.setTracing on, h.lines⟩

theorem queue_switch (h : Host) (ons : List Bool) :
    (h.switch ons).machine.queue = h.machine.queue := by
  induction ons generalizing h with
  | nil => rfl
  | cons on ons ih => exact ih ⟨h.machine.setTracing on, h.lines⟩

/-- The events are, but for reports, those of `j` ticks without reports, and so is the host after
them. -/
def Shadows (draws : Draws) (h : Host) (j : ℕ) (xs : List (Event × Host)) (h' : Host) : Prop :=
  plain xs = Moment.events (h.untraced.tickCourse draws j).1 ∧
    h'.untraced = (h.untraced.tickCourse draws j).2

theorem Shadows.refl (draws : Draws) (h : Host) : h.Shadows draws 0 [] h := ⟨rfl, rfl⟩

theorem Shadows.trans {h₁ h₂ : Host} {ys : List (Event × Host)} (hx : h.Shadows draws j xs h₁)
    (hy : h₁.Shadows draws k ys h₂) : h.Shadows draws (j + k) (xs ++ ys) h₂ := by
  obtain ⟨hxs, hh₁⟩ := hx
  obtain ⟨hys, hh₂⟩ := hy
  rw [hh₁] at hys hh₂
  refine ⟨?_, ?_⟩
  · rw [plain_append, hxs, hys, tickCourse_add, Moment.events_append]
  · rw [hh₂, tickCourse_add]

theorem Shadows.congr {h₁ : Host} (hx : h₁.Shadows draws j xs h') (hh : h₁.untraced = h.untraced) :
    h.Shadows draws j xs h' := by
  unfold Shadows at hx ⊢
  rwa [hh] at hx

theorem events_tickMoments (draws : Draws) (h : Host) : Moment.events (h.tickMoments draws) =
    ((h.tick draws).1.map fun e => (e, (h.tick draws).2)).toList := by
  unfold tickMoments
  rw [Moment.events_append]
  cases (h.tick draws).1 with
  | none => split <;> rfl
  | some e => split <;> rfl

/-- A tick is a report, or is seen without reports too. -/
theorem shadows_tick (draws : Draws) (h : Host) :
    ∃ j, h.Shadows draws j (Moment.events (h.tickMoments draws)) (h.tick draws).2 ∧
      (¬ h.IsReporting → 0 < j) := by
  by_cases hr : h.IsReporting
  · obtain ⟨a, queue, hq⟩ := hr
    obtain ⟨ht, hsame⟩ := tick_of_trace draws hq
    refine ⟨0, ⟨?_, ?_⟩, fun h => absurd ⟨a, queue, hq⟩ h⟩
    · rw [events_tickMoments, ht]
      rfl
    · rw [ht]
      exact hsame
  · refine ⟨1, ⟨?_, ?_⟩, fun _ => Nat.one_pos⟩
    · rw [tickCourse_one, events_tickMoments, events_tickMoments, tick_untraced draws hr]
      cases ht : (h.tick draws).1 with
      | none => rfl
      | some e => simp [plain, isPlain_of_tick hr ht]
    · rw [tickCourse_one, tick_untraced draws hr]

theorem shadows_ticks (draws : Draws) (k : ℕ) (h : Host) :
    ∃ j, h.Shadows draws j (Moment.events (h.tickCourse draws k).1) (h.tickCourse draws k).2 ∧
      (0 < k → ¬ h.IsReporting → 0 < j) := by
  induction k generalizing h with
  | zero => exact ⟨0, .refl draws h, by simp⟩
  | succ k ih =>
      obtain ⟨i, hi, hpos⟩ := shadows_tick draws h
      obtain ⟨j, hj, _⟩ := ih (h.tick draws).2
      refine ⟨i + j, ?_, fun _ hr => Nat.add_pos_left (hpos hr) j⟩
      rw [tickCourse, Moment.events_append]
      exact hi.trans hj

/-! ### Calls -/

theorem plain_events_told (ms : List Moment) :
    plain (Moment.events (Moment.told ms)) = plain (Moment.events ms) := by
  induction ms with
  | nil => rfl
  | cons x ms ih =>
      cases x with
      | step m => exact ih
      | event e h =>
          cases e with
          | running => exact ih
          | stopped | input | notice =>
              rw [Moment.told_event _ (by simp), Moment.events_event, Moment.events_event,
                ← List.singleton_append, plain_append, ih, ← plain_append]
              rfl

theorem exists_tickCourse_of_call (draws : Draws) (budget : ℕ) (h : Host) :
    ∃ k, h.tickCourse draws k =
      (Moment.told (h.callMoments draws budget), (h.call draws budget).2) ∧
        (0 < budget → 0 < k) := by
  cases budget with
  | zero =>
      obtain ⟨k, hk⟩ := tickCourse_of_call draws 0 h
      exact ⟨k, hk, by simp⟩
  | succ budget =>
      rcases ht : h.tick draws with ⟨_ | e, h'⟩
      · obtain ⟨hm, hcall⟩ := call_of_tick_none ht budget
        obtain ⟨k, hk⟩ := tickCourse_of_call draws budget h'
        refine ⟨k + 1, ?_, fun _ => Nat.succ_pos k⟩
        rw [tickCourse, ht, hk, hm, hcall, Moment.told_append, told_tickMoments]
      · obtain ⟨hm, hcall⟩ := call_of_tick_some ht budget
        refine ⟨1, ?_, fun _ => Nat.one_pos⟩
        rw [tickCourse_one, hm, hcall, told_tickMoments, ht]

/-- A call is, but for a report, a row of ticks without reports. -/
theorem shadows_call (draws : Draws) (budget : ℕ) (h : Host) (ons : List Bool) :
    ∃ j, h.Shadows draws j [(h.switch ons).call draws budget]
        ((h.switch ons).call draws budget).2 ∧
      (0 < budget → ¬ h.IsReporting → 0 < j) := by
  obtain ⟨k, hk, hkpos⟩ := exists_tickCourse_of_call draws budget (h.switch ons)
  obtain ⟨j, hj, hjpos⟩ := shadows_ticks draws k (h.switch ons)
  refine ⟨j, ?_, ?_⟩
  · rw [hk] at hj
    obtain ⟨hplain, hafter⟩ := hj.congr (h.untraced_switch ons)
    refine ⟨?_, hafter⟩
    rw [← hplain, plain_events_told, callMoments, Moment.events_append]
    simp
  · intro hb hr
    refine hjpos (hkpos hb) ?_
    unfold IsReporting at hr ⊢
    rwa [queue_switch]

theorem shadows_watch (draws : Draws) (budgets : ℕ → ℕ) (switches : ℕ → List Bool) (n : ℕ)
    (h : Host) : ∃ j, h.Shadows draws j (h.watch draws budgets switches n).1
      (h.watch draws budgets switches n).2 := by
  induction n generalizing h budgets switches with
  | zero => exact ⟨0, .refl draws h⟩
  | succ n ih =>
      obtain ⟨i, hi, _⟩ := shadows_call draws (budgets 0) h (switches 0)
      obtain ⟨j, hj⟩ := ih (fun i => budgets (i + 1)) (fun i => switches (i + 1)) _
      exact ⟨i + j, hi.trans hj⟩

/-! ### Progress -/

theorem queue_of_call_trace (draws : Draws) (budget : ℕ) (ons : List Bool) {a : ℕ}
    {queue : List Notice} (hq : h.machine.queue = .trace a :: queue) :
    ((h.switch ons).call draws budget).2.machine.queue = queue := by
  have hq' : (h.switch ons).machine.queue = .trace a :: queue := by rw [queue_switch, hq]
  simp [call, Machine.execute_of_queue hq', receive]

/-- Without empty budgets, calls get as far as any number of ticks without reports. -/
theorem exists_shadows_le (draws : Draws) (hb : ∀ i, 0 < budgets i) (switches : ℕ → List Bool)
    (j : ℕ) (h : Host) : ∃ n i, j ≤ i ∧
      h.Shadows draws i (h.watch draws budgets switches n).1
        (h.watch draws budgets switches n).2 := by
  -- Each call covers a tick, or tells one of the reports that wait.
  induction j generalizing h budgets switches with
  | zero => exact ⟨0, 0, le_rfl, .refl draws h⟩
  | succ j ihj =>
      induction hlen : h.machine.queue.length using Nat.strong_induction_on
        generalizing h budgets switches with
      | _ len ihlen =>
          obtain ⟨i, hi, hpos⟩ := shadows_call draws (budgets 0) h (switches 0)
          have hb' : ∀ i, 0 < budgets (i + 1) := fun i => hb (i + 1)
          by_cases hr : h.IsReporting
          · obtain ⟨a, queue, hq⟩ := hr
            have hqueue := queue_of_call_trace draws (budgets 0) (switches 0) hq
            have hshort : queue.length < len := by simp [← hlen, hq]
            obtain ⟨n, i', hle, hi'⟩ := ihlen _ hshort hb' (fun i => switches (i + 1))
              ((h.switch (switches 0)).call draws (budgets 0)).2 (by rw [hqueue])
            exact ⟨n + 1, i + i', by omega, hi.trans hi'⟩
          · obtain ⟨n, i', hle, hi'⟩ := ihj hb' (fun i => switches (i + 1)) _
            have := hpos (hb 0) hr
            exact ⟨n + 1, i + i', by omega, hi.trans hi'⟩

theorem exists_plain_of_prefix {told : List (Event × Host)}
    (hp : told <+: plain (h.watch draws budgets switches n).1) :
    ∃ k, plain (h.watch draws budgets switches k).1 = told := by
  induction n generalizing h budgets switches told with
  | zero => exact ⟨0, (List.prefix_nil.1 hp).symm⟩
  | succ n ih =>
      have hcons : ∀ k, plain (h.watch draws budgets switches (k + 1)).1 =
          plain [(h.switch (switches 0)).call draws (budgets 0)] ++
            plain (watch draws (fun i => budgets (i + 1)) (fun i => switches (i + 1)) k
              ((h.switch (switches 0)).call draws (budgets 0)).2).1 := by
        intro k
        rw [← plain_append]
        rfl
      rw [hcons] at hp
      generalize (h.switch (switches 0)).call draws (budgets 0) = first at hcons hp
      obtain ⟨e, h'⟩ := first
      by_cases he : e.isPlain = true
      · have hone : plain [(e, h')] = [(e, h'.untraced)] := by simp [plain, he]
        rw [hone] at hp
        rcases List.prefix_cons_iff.1 hp with rfl | ⟨rest, rfl, hrest⟩
        · exact ⟨0, rfl⟩
        · obtain ⟨k, hk⟩ := ih hrest
          exact ⟨k + 1, by rw [hcons, hone, hk]; rfl⟩
      · have hnone : plain [(e, h')] = [] := by simp [plain, he]
        rw [hnone] at hp
        obtain ⟨k, hk⟩ := ih hp
        exact ⟨k + 1, by rw [hcons, hnone, hk]; rfl⟩

/-! ### With reports and without -/

/-- However the reports are switched, what is heard but for them is heard without them. -/
theorem exists_heard_of_watch (budgets : ℕ → ℕ) (switches : ℕ → List Bool)
    (hb' : ∀ i, 0 < budgets' i) (n : ℕ) (h : Host) :
    ∃ k, h.untraced.heard draws budgets' k = plain (h.watch draws budgets switches n).1 := by
  obtain ⟨j, hj, _⟩ := shadows_watch draws budgets switches n h
  rw [hj]
  exact exists_heard_of_ticks hb' j h.untraced

/-- What is heard without reports is heard however the reports are switched. -/
theorem exists_watch_of_heard (hb : ∀ i, 0 < budgets i) (switches : ℕ → List Bool)
    (budgets' : ℕ → ℕ) (k : ℕ) (h : Host) :
    ∃ n, plain (h.watch draws budgets switches n).1 = h.untraced.heard draws budgets' k := by
  obtain ⟨j, hj⟩ := exists_ticks_of_heard draws budgets' k h.untraced
  obtain ⟨n, i, hle, hi, _⟩ := exists_shadows_le draws hb switches j h
  apply exists_plain_of_prefix (n := n)
  obtain ⟨d, rfl⟩ := Nat.exists_eq_add_of_le hle
  rw [hi, ← hj, tickCourse_add, Moment.events_append]
  exact List.prefix_append _ _

end Host
end TwinTape
