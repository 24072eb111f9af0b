import TwinTape.Proofs.Invariant

/-! # Courses

A course is all that happens in a drive, in order: each step with the machine that takes it, and
each event with the host after it.  `Host.course` is `Host.drive` with this record (`course_val`),
and `Host.tickCourse` is the record of a row of ticks.

Budgets do nothing but cut a course into calls.

* `tickCourse_of_course`: but for `Event.running`, the course of a drive is that of some ticks.
* `comesBy_ticks`: a drive without empty budgets comes by every host that ticks lead to, and from
  there it is the drive of that host with what is left of the budgets.

So an event can be heard in one drive if and only if it can be heard in the other, after the same
events and from the same machine (`budget_unobservable`). -/

namespace TwinTape

/-! ### Moments -/

/-- Something that happens while a host drives a machine. -/
inductive Moment where
  /-- The machine takes a step. -/
  | step (machine : Machine)
  /-- The host gets an event, and is then as given. -/
  | event (e : Event) (after : Host)

namespace Moment

/-- The moment is not just the end of a budget. -/
def isTold : Moment → Bool
  | .event .running _ => false
  | _ => true

/-- The moments but for the ends of budgets. -/
def told (ms : List Moment) : List Moment := ms.filter isTold

/-- The machines that take steps. -/
def steps (ms : List Moment) : List Machine :=
  ms.filterMap fun x => match x with
    | .step m => some m
    | .event _ _ => none

/-- The events, each with the host after it. -/
def events (ms : List Moment) : List (Event × Host) :=
  ms.filterMap fun x => match x with
    | .step _ => none
    | .event e h => some (e, h)

variable (ms ms' : List Moment)

@[simp] theorem steps_nil : steps [] = [] := rfl

@[simp] theorem events_nil : events [] = [] := rfl

@[simp] theorem told_append : told (ms ++ ms') = told ms ++ told ms' := List.filter_append ..

@[simp] theorem steps_append : steps (ms ++ ms') = steps ms ++ steps ms' := List.filterMap_append

@[simp] theorem events_append : events (ms ++ ms') = events ms ++ events ms' :=
  List.filterMap_append

@[simp] theorem told_map_step (xs : List Machine) : told (xs.map .step) = xs.map .step := by
  simp [told, isTold]

@[simp] theorem events_map_step (xs : List Machine) : events (xs.map .step) = [] := by
  simp [events]

@[simp] theorem steps_step (m : Machine) : steps (.step m :: ms) = m :: steps ms := rfl

@[simp] theorem steps_event (e : Event) (h : Host) : steps (.event e h :: ms) = steps ms := rfl

@[simp] theorem events_step (m : Machine) : events (.step m :: ms) = events ms := rfl

@[simp] theorem events_event (e : Event) (h : Host) :
    events (.event e h :: ms) = (e, h) :: events ms := rfl

@[simp] theorem told_running (h : Host) : told (.event .running h :: ms) = told ms := rfl

theorem told_event {e : Event} (he : e ≠ .running) (h : Host) :
    told (.event e h :: ms) = .event e h :: told ms := by
  cases e <;> first | rfl | exact absurd rfl he

end Moment

/-! ### The steps of a call -/

namespace Machine

variable {draws : Draws} {m : Machine}

/-- The next tick takes a step. -/
def isStepping (m : Machine) : Bool :=
  m.queue.isEmpty && !m.interrupted && m.isRunning && decide (m.counter < m.program.size)

theorem isStepping_iff : m.isStepping = true ↔ m.Active ∧ m.counter < m.program.size := by
  simp only [isStepping, Bool.and_eq_true, List.isEmpty_iff, Bool.not_eq_true', decide_eq_true_eq]
  constructor
  · rintro ⟨⟨⟨hq, hi⟩, hr⟩, hc⟩
    exact ⟨⟨hq, hi, hr⟩, hc⟩
  · rintro ⟨⟨hq, hi, hr⟩, hc⟩
    exact ⟨⟨⟨hq, hi⟩, hr⟩, hc⟩

theorem Active.executeLogged_eq (h : m.Active) (budget : ℕ) :
    m.executeLogged draws budget = m.runLogged draws budget := by
  simp [executeLogged, h.queue, h.interrupted, h.running]

theorem steps_of_not_active (h : ¬ m.Active) (budget : ℕ) :
    (m.executeLogged draws budget).1 = [] := by
  unfold executeLogged
  cases hq : m.queue with
  | cons n queue => rfl
  | nil =>
      by_cases hi : m.interrupted = true
      · simp [hi]
      · by_cases hr : m.isRunning = true
        · exact absurd ⟨hq, by simpa using hi, hr⟩ h
        · simp [hi, hr]

/-- The steps of a call are those of its ticks. -/
theorem steps_executeLogged_succ (draws : Draws) (budget : ℕ) (m : Machine) :
    (m.executeLogged draws (budget + 1)).1 =
      (if m.isStepping then [m] else []) ++ match m.tick draws with
        | (some _, _) => []
        | (none, after) => (after.executeLogged draws budget).1 := by
  by_cases ha : m.Active
  · rw [ha.executeLogged_eq, ha.tick_eq, runLogged]
    by_cases hc : m.program.size ≤ m.counter
    · have hs : m.isStepping = false := by
        rw [← Bool.not_eq_true, isStepping_iff]
        exact fun h => absurd h.2 (by omega)
      rw [if_pos hc, if_pos hc, hs]
      rfl
    · have hs : m.isStepping = true := isStepping_iff.2 ⟨ha, by omega⟩
      rw [if_neg hc, if_neg hc, hs]
      cases hstep : m.step draws with
      | error fault => rfl
      | ok p =>
          obtain ⟨next, _ | medium⟩ := p
          · have hsteps := step_eq_ok_iff.1 hstep
            cases hq : (next.traced m.counter).queue with
            | cons n queue =>
                have hnot : ¬ (next.traced m.counter).Active := by
                  intro h
                  rw [h.queue] at hq
                  contradiction
                simp [hq, steps_of_not_active hnot]
            | nil =>
                have htr : next.traced m.counter = next := by
                  cases traced_eq_or next m.counter with
                  | inl h => exact h
                  | inr h =>
                      rw [h] at hq
                      simp [push] at hq
                have hact : next.Active :=
                  ⟨by rw [← htr]; exact hq, by rw [hsteps.frame.2.1]; exact ha.interrupted,
                    hsteps.isRunning ha.running⟩
                simp [htr, hact.queue, hact.executeLogged_eq]
          · rfl
  · have hs : m.isStepping = false := by
      rw [← Bool.not_eq_true, isStepping_iff]
      exact fun h => ha h.1
    obtain ⟨e, ht, _⟩ := execute_of_not_active draws ha 0
    rw [steps_of_not_active ha, ht, hs]
    rfl

end Machine

/-! ### Courses of drives and of ticks -/

namespace Host

/-- What happens in a call. -/
def callMoments (draws : Draws) (budget : ℕ) (h : Host) : List Moment :=
  (h.machine.executeLogged draws budget).1.map .step ++
    [.event (h.call draws budget).1 (h.call draws budget).2]

/-- What happens in the first `n` calls of a drive. -/
def course (draws : Draws) (budgets : ℕ → ℕ) : ℕ → Host → List Moment × Host
  | 0, h => ([], h)
  | n + 1, h =>
    let rest := course draws (fun i => budgets (i + 1)) n (h.call draws (budgets 0)).2
    (h.callMoments draws (budgets 0) ++ rest.1, rest.2)

/-- What happens in a tick. -/
def tickMoments (draws : Draws) (h : Host) : List Moment :=
  (if h.machine.isStepping then [.step h.machine] else []) ++
    match (h.tick draws).1 with
    | some e => [.event e (h.tick draws).2]
    | none => []

/-- What happens in the first `n` ticks. -/
def tickCourse (draws : Draws) : ℕ → Host → List Moment × Host
  | 0, h => ([], h)
  | n + 1, h =>
    let rest := tickCourse draws n (h.tick draws).2
    (h.tickMoments draws ++ rest.1, rest.2)

variable {draws : Draws} {budgets budgets₁ budgets₂ : ℕ → ℕ} {h h' h₁ h₂ : Host} {e : Event}
  {n k budget : ℕ} {ms ms' : List Moment}

theorem course_val (draws : Draws) (budgets : ℕ → ℕ) (n : ℕ) (h : Host) :
    ((Moment.events (h.course draws budgets n).1).map Prod.fst, (h.course draws budgets n).2) =
      h.drive draws budgets n := by
  induction n generalizing h budgets with
  | zero => rfl
  | succ n ih =>
      have hrest := ih (fun i => budgets (i + 1)) (h.call draws (budgets 0)).2
      simp only [course, drive, ← hrest]
      simp [callMoments]

theorem tickCourse_add (draws : Draws) (n k : ℕ) (h : Host) :
    h.tickCourse draws (n + k) =
      ((h.tickCourse draws n).1 ++ ((h.tickCourse draws n).2.tickCourse draws k).1,
        ((h.tickCourse draws n).2.tickCourse draws k).2) := by
  induction n generalizing h with
  | zero => simp [tickCourse]
  | succ n ih =>
      rw [Nat.succ_add, tickCourse, tickCourse, ih]
      simp

theorem tickCourse_one (draws : Draws) (h : Host) :
    h.tickCourse draws 1 = (h.tickMoments draws, (h.tick draws).2) := by
  simp [tickCourse]

theorem told_tickMoments (draws : Draws) (h : Host) :
    Moment.told (h.tickMoments draws) = h.tickMoments draws := by
  have hne := tick_ne_running draws h
  unfold tickMoments
  rw [Moment.told_append]
  congr 1
  · split <;> rfl
  · cases ht : (h.tick draws).1 with
    | none => rfl
    | some e =>
        refine Moment.told_event [] ?_ _
        rintro rfl
        exact hne ht

/-! ### A call as ticks -/

theorem call_zero (draws : Draws) (ha : h.machine.Active) :
    h.callMoments draws 0 = [.event .running h] ∧ h.call draws 0 = (.running, h) := by
  have hcall : h.call draws 0 = (.running, h) := by
    simp [call, ha.execute_zero, receive]
  refine ⟨?_, hcall⟩
  rw [callMoments, hcall, ha.executeLogged_eq]
  rfl

theorem call_of_tick_none (ht : h.tick draws = (none, h')) (budget : ℕ) :
    h.callMoments draws (budget + 1) = h.tickMoments draws ++ h'.callMoments draws budget ∧
      h.call draws (budget + 1) = h'.call draws budget := by
  unfold tick at ht
  split at ht
  · simp at ht
  · rename_i m hm
    cases ht
    have hcall : h.call draws (budget + 1) = Host.call draws budget ⟨m, h.lines⟩ := by
      simp [call, Machine.execute_succ, hm]
    refine ⟨?_, hcall⟩
    rw [callMoments, hcall, Machine.steps_executeLogged_succ, hm]
    have htick : (h.tick draws).1 = none := by simp [tick, hm]
    simp only [tickMoments, callMoments, htick, List.map_append, List.append_assoc]
    split <;> rfl

theorem call_of_tick_some (ht : h.tick draws = (some e, h')) (budget : ℕ) :
    h.callMoments draws (budget + 1) = h.tickMoments draws ∧
      h.call draws (budget + 1) = (e, h') := by
  have htick := ht
  unfold tick at ht
  split at ht
  · rename_i e m hm
    cases ht
    have hcall : h.call draws (budget + 1) = (e, receive e m h.lines) := by
      simp [call, Machine.execute_succ, hm]
    refine ⟨?_, hcall⟩
    rw [callMoments, hcall, Machine.steps_executeLogged_succ, hm]
    simp only [tickMoments, htick, List.append_nil]
    split <;> rfl
  · simp at ht

theorem call_of_not_active (draws : Draws) (ha : ¬ h.machine.Active) (budget : ℕ) :
    ∃ e, h.tick draws = (some e, (h.call draws budget).2) ∧
      h.callMoments draws budget = h.tickMoments draws := by
  obtain ⟨e, ht, he⟩ := Machine.execute_of_not_active draws ha budget
  have hcall : h.call draws budget = (e, receive e (h.machine.execute draws budget).2 h.lines) := by
    simp [call, ← he]
  have htick : h.tick draws = (some e, (h.call draws budget).2) := by
    simp [tick, ht, hcall]
  refine ⟨e, htick, ?_⟩
  have hs : h.machine.isStepping = false := by
    rw [← Bool.not_eq_true, Machine.isStepping_iff]
    exact fun h => ha h.1
  rw [callMoments, tickMoments, htick, Machine.steps_of_not_active ha, hs, hcall]
  rfl

/-- But for the end of the budget, a call is a row of ticks. -/
theorem tickCourse_of_call (draws : Draws) (budget : ℕ) (h : Host) :
    ∃ k, h.tickCourse draws k =
      (Moment.told (h.callMoments draws budget), (h.call draws budget).2) := by
  induction budget generalizing h with
  | zero =>
      by_cases ha : h.machine.Active
      · obtain ⟨hm, hcall⟩ := call_zero draws ha
        refine ⟨0, ?_⟩
        rw [hm, hcall]
        rfl
      · obtain ⟨e, ht, hm⟩ := call_of_not_active draws ha 0
        refine ⟨1, ?_⟩
        rw [tickCourse_one, hm, told_tickMoments, ht]
  | succ budget ih =>
      rcases ht : h.tick draws with ⟨_ | e, h'⟩
      · obtain ⟨hm, hcall⟩ := call_of_tick_none ht budget
        obtain ⟨k, hk⟩ := ih h'
        refine ⟨1 + k, ?_⟩
        rw [tickCourse_add, tickCourse_one, ht, hk, hm, hcall, Moment.told_append,
          told_tickMoments]
      · obtain ⟨hm, hcall⟩ := call_of_tick_some ht budget
        refine ⟨1, ?_⟩
        rw [tickCourse_one, hm, hcall, told_tickMoments, ht]

/-- But for the ends of budgets, a course of calls is a course of ticks. -/
theorem tickCourse_of_course (draws : Draws) (budgets : ℕ → ℕ) (n : ℕ) (h : Host) :
    ∃ k, h.tickCourse draws k =
      (Moment.told (h.course draws budgets n).1, (h.course draws budgets n).2) := by
  induction n generalizing h budgets with
  | zero => exact ⟨0, rfl⟩
  | succ n ih =>
      obtain ⟨j, hj⟩ := tickCourse_of_call draws (budgets 0) h
      obtain ⟨k, hk⟩ := ih (fun i => budgets (i + 1)) (h.call draws (budgets 0)).2
      refine ⟨j + k, ?_⟩
      rw [tickCourse_add, hj, hk, course, Moment.told_append]

/-! ### Hosts on the way -/

/-- The drive of `h` comes by `h'` after the moments `ms`, and the budgets that are left then are
`budgets'`, of which the first is what is left for the call that is going on. -/
def ComesBy (draws : Draws) (budgets : ℕ → ℕ) (h : Host) (ms : List Moment) (budgets' : ℕ → ℕ)
    (h' : Host) : Prop :=
  ∃ calls xs, Moment.told xs = ms ∧ budgets' 0 ≤ budgets calls ∧
    (∀ i, budgets' (i + 1) = budgets (calls + (i + 1))) ∧
    ∀ n, h.course draws budgets (calls + (n + 1)) =
      (xs ++ (h'.course draws budgets' (n + 1)).1, (h'.course draws budgets' (n + 1)).2)

theorem ComesBy.refl (draws : Draws) (budgets : ℕ → ℕ) (h : Host) :
    h.ComesBy draws budgets [] budgets h := by
  refine ⟨0, [], rfl, le_rfl, ?_, ?_⟩
  · intro i
    rw [Nat.zero_add]
  · intro n
    rw [Nat.zero_add]
    rfl

theorem ComesBy.trans (hc : h.ComesBy draws budgets ms budgets₁ h₁)
    (hc' : h₁.ComesBy draws budgets₁ ms' budgets₂ h₂) :
    h.ComesBy draws budgets (ms ++ ms') budgets₂ h₂ := by
  obtain ⟨calls, xs, rfl, hleft, hlater, hcourse⟩ := hc
  obtain ⟨calls', xs', rfl, hleft', hlater', hcourse'⟩ := hc'
  refine ⟨calls + calls', xs ++ xs', Moment.told_append xs xs', ?_, ?_, ?_⟩
  · cases calls' with
    | zero => exact hleft'.trans hleft
    | succ calls' => rwa [hlater] at hleft'
  · intro i
    rw [hlater' i, ← Nat.add_assoc calls' i 1, hlater, Nat.add_assoc calls]
    rfl
  · intro n
    rw [Nat.add_assoc, ← Nat.add_assoc calls' n 1, hcourse, Nat.add_assoc, hcourse',
      List.append_assoc]

theorem ComesBy.pos (hc : h.ComesBy draws budgets ms budgets₁ h₁)
    (hb : ∀ i, 0 < budgets (i + 1)) (i : ℕ) : 0 < budgets₁ (i + 1) := by
  obtain ⟨calls, _, _, _, hlater, _⟩ := hc
  rw [hlater, ← Nat.add_assoc]
  exact hb (calls + i)

theorem comesBy_call (draws : Draws) (budgets : ℕ → ℕ) (h : Host) :
    h.ComesBy draws budgets (Moment.told (h.callMoments draws (budgets 0)))
      (fun i => budgets (i + 1)) (h.call draws (budgets 0)).2 := by
  refine ⟨1, h.callMoments draws (budgets 0), rfl, le_rfl, ?_, ?_⟩
  · intro i
    rw [Nat.add_comm 1]
  · intro n
    rw [Nat.add_comm 1, course]

theorem comesBy_tick_of_pos (draws : Draws) (budgets : ℕ → ℕ) (h : Host) (hb : 0 < budgets 0) :
    ∃ budgets₁, h.ComesBy draws budgets (h.tickMoments draws) budgets₁ (h.tick draws).2 := by
  obtain ⟨budget, hbudget⟩ : ∃ budget, budgets 0 = budget + 1 := ⟨budgets 0 - 1, by omega⟩
  rcases ht : h.tick draws with ⟨_ | e, h'⟩
  · obtain ⟨hm, hcall⟩ := call_of_tick_none ht budget
    refine ⟨fun i => if i = 0 then budget else budgets i, 0, h.tickMoments draws,
      told_tickMoments draws h, ?_, ?_, ?_⟩
    · simp [hbudget]
    · simp
    · intro n
      rw [Nat.zero_add, course, course, hbudget, hm, hcall]
      simp
  · obtain ⟨hm, hcall⟩ := call_of_tick_some ht budget
    have hc := comesBy_call draws budgets h
    rw [hbudget, hm, hcall, told_tickMoments] at hc
    exact ⟨_, hc⟩

theorem comesBy_tick (draws : Draws) (h : Host) (hb : ∀ i, 0 < budgets (i + 1)) :
    ∃ budgets₁, h.ComesBy draws budgets (h.tickMoments draws) budgets₁ (h.tick draws).2 := by
  by_cases hpos : 0 < budgets 0
  · exact comesBy_tick_of_pos draws budgets h hpos
  · have hzero : budgets 0 = 0 := by omega
    have hc := comesBy_call draws budgets h
    rw [hzero] at hc
    by_cases ha : h.machine.Active
    · obtain ⟨hm, hcall⟩ := call_zero draws ha
      rw [hm, hcall] at hc
      obtain ⟨budgets₁, hc'⟩ := comesBy_tick_of_pos draws (fun i => budgets (i + 1)) h (hb 0)
      exact ⟨budgets₁, hc.trans hc'⟩
    · obtain ⟨e, ht, hm⟩ := call_of_not_active draws ha 0
      rw [hm, told_tickMoments] at hc
      rw [ht]
      exact ⟨_, hc⟩

/-- **A drive comes by every host that ticks lead to**, if no budget is empty. -/
theorem comesBy_ticks (draws : Draws) (k : ℕ) (h : Host) (hb : ∀ i, 0 < budgets (i + 1)) :
    ∃ budgets₁, h.ComesBy draws budgets (h.tickCourse draws k).1 budgets₁
      (h.tickCourse draws k).2 := by
  induction k generalizing h budgets with
  | zero => exact ⟨budgets, .refl draws budgets h⟩
  | succ k ih =>
      obtain ⟨budgets₁, hc⟩ := comesBy_tick draws h hb
      obtain ⟨budgets₂, hc'⟩ := ih (h.tick draws).2 (hc.pos hb)
      exact ⟨budgets₂, hc.trans hc'⟩

/-! ### What a host hears -/

/-- The events of the first `n` calls other than `Event.running`, each with the host after it. -/
def heard (draws : Draws) (budgets : ℕ → ℕ) : ℕ → Host → List (Event × Host)
  | 0, _ => []
  | n + 1, h =>
    let rest := heard draws (fun i => budgets (i + 1)) n (h.call draws (budgets 0)).2
    match (h.call draws (budgets 0)).1 with
    | .running => rest
    | _ => h.call draws (budgets 0) :: rest

theorem heard_of_running (hr : (h.call draws (budgets 0)).1 = .running) (n : ℕ) :
    h.heard draws budgets (n + 1) =
      heard draws (fun i => budgets (i + 1)) n (h.call draws (budgets 0)).2 := by
  simp [heard, hr]

theorem heard_of_ne_running (hr : (h.call draws (budgets 0)).1 ≠ .running) (n : ℕ) :
    h.heard draws budgets (n + 1) = h.call draws (budgets 0) ::
      heard draws (fun i => budgets (i + 1)) n (h.call draws (budgets 0)).2 := by
  rw [heard]
  split
  · exact absurd ‹_› hr
  · rfl

/-- What a host hears are the events of the course. -/
theorem heard_eq (draws : Draws) (budgets : ℕ → ℕ) (n : ℕ) (h : Host) :
    h.heard draws budgets n = Moment.events (Moment.told (h.course draws budgets n).1) := by
  induction n generalizing h budgets with
  | zero => rfl
  | succ n ih =>
      have hrest := ih (fun i => budgets (i + 1)) (h.call draws (budgets 0)).2
      by_cases hr : (h.call draws (budgets 0)).1 = .running
      · rw [heard_of_running hr, hrest]
        simp [course, callMoments, hr]
      · rw [heard_of_ne_running hr, hrest]
        simp [course, callMoments, Moment.told_event _ hr]

/-- A call adds one event at most, so a host has heard just a given part from the start at some
time. -/
theorem exists_heard_of_prefix {xs : List (Event × Host)}
    (hxs : xs <+: h.heard draws budgets n) : ∃ k, h.heard draws budgets k = xs := by
  induction n generalizing h budgets xs with
  | zero => exact ⟨0, (List.prefix_nil.1 hxs).symm⟩
  | succ n ih =>
      by_cases hr : (h.call draws (budgets 0)).1 = .running
      · rw [heard_of_running hr] at hxs
        obtain ⟨k, hk⟩ := ih hxs
        exact ⟨k + 1, by rw [heard_of_running hr, hk]⟩
      · rw [heard_of_ne_running hr] at hxs
        rcases List.prefix_cons_iff.1 hxs with rfl | ⟨rest, rfl, hrest⟩
        · exact ⟨0, rfl⟩
        · obtain ⟨k, hk⟩ := ih hrest
          exact ⟨k + 1, by rw [heard_of_ne_running hr, hk]⟩

/-- What a host hears is what some ticks tell. -/
theorem exists_ticks_of_heard (draws : Draws) (budgets : ℕ → ℕ) (n : ℕ) (h : Host) :
    ∃ k, Moment.events (h.tickCourse draws k).1 = h.heard draws budgets n := by
  obtain ⟨k, hk⟩ := tickCourse_of_course draws budgets n h
  exact ⟨k, by rw [hk, heard_eq]⟩

/-- What ticks tell is heard in a drive without empty budgets. -/
theorem exists_heard_of_ticks (hb : ∀ i, 0 < budgets i) (j : ℕ) (h : Host) :
    ∃ k, h.heard draws budgets k = Moment.events (h.tickCourse draws j).1 := by
  obtain ⟨_, calls, xs, hxs, _, _, hcourse⟩ := comesBy_ticks draws j h fun i => hb (i + 1)
  apply exists_heard_of_prefix (n := calls + (0 + 1))
  rw [heard_eq, hcourse 0, Moment.told_append, hxs, Moment.events_append]
  exact List.prefix_append _ _

/-- What is heard in one drive is heard in the other. -/
theorem exists_heard (hb : ∀ i, 0 < budgets₁ i) (n : ℕ) (h : Host) :
    ∃ k, h.heard draws budgets₁ k = h.heard draws budgets n := by
  obtain ⟨j, hj⟩ := exists_ticks_of_heard draws budgets n h
  obtain ⟨k, hk⟩ := exists_heard_of_ticks hb j h
  exact ⟨k, hk.trans hj⟩

end Host

/-- A call that uses up its budget can be continued. -/
theorem Machine.execute_add {draws : Draws} {n : ℕ} {m after : Machine} (k : ℕ)
    (h : m.execute draws n = (.running, after)) :
    m.execute draws (n + k) = after.execute draws k := by
  induction n generalizing m with
  | zero =>
      by_cases ha : m.Active
      · rw [ha.execute_zero] at h
        cases h
        rw [Nat.zero_add]
      · obtain ⟨e, ht, he⟩ := execute_of_not_active draws ha 0
        rw [h] at he
        refine absurd ?_ (tick_ne_running draws m)
        rw [ht, ← he]
  | succ n ih =>
      rw [Nat.succ_add, execute_succ]
      rw [execute_succ] at h
      rcases ht : m.tick draws with ⟨_ | e, next⟩
      · rw [ht] at h
        exact ih h
      · rw [ht] at h
        cases h
        refine absurd ?_ (tick_ne_running draws m)
        rw [ht]

/-- **The budgets are not observed.**  A call that uses up its budget can be continued by another
one; and two drives without empty budgets let the host hear the same events one after the other,
with the same machine after each of them. -/
theorem Machine.budget_unobservable (draws : Draws) (m : Machine) :
    (∀ n k after, m.execute draws n = (.running, after) →
      m.execute draws (n + k) = after.execute draws k) ∧
    ∀ (lines : List (List Char)) (budgets budgets' : ℕ → ℕ), (∀ i, 0 < budgets i) →
      (∀ i, 0 < budgets' i) → ∀ told : List (Event × Host),
        (∃ n, (⟨m, lines⟩ : Host).heard draws budgets n = told) ↔
          ∃ n, (⟨m, lines⟩ : Host).heard draws budgets' n = told := by
  refine ⟨fun n k after h => execute_add k h, ?_⟩
  · intro lines budgets budgets' hb hb' told
    constructor
    · rintro ⟨n, rfl⟩
      exact Host.exists_heard hb' n ⟨m, lines⟩
    · rintro ⟨n, rfl⟩
      exact Host.exists_heard hb n ⟨m, lines⟩

/-- A machine that is to repeat an action and then to ask for a number. -/
def Machine.repeatThenAsk : Machine :=
  Machine.load {} (.ofCode "demo" [⟨.act .local (.times 5) .increment, ⟨1, 1⟩⟩,
    ⟨.perform .global (.input .number), ⟨1, 2⟩⟩])

/-- It can be driven in single steps or in longer and longer calls. -/
theorem Machine.budget_unobservable_repeatThenAsk :
    (∃ after, repeatThenAsk.execute (fun _ => 0.5) 1 = (.running, after) ∧
      repeatThenAsk.execute (fun _ => 0.5) 3 = after.execute (fun _ => 0.5) 2) ∧
    ∀ told,
      (∃ n, (⟨repeatThenAsk, [['7']]⟩ : Host).heard (fun _ => 0.5) (fun _ => 1) n = told) ↔
        ∃ n, (⟨repeatThenAsk, [['7']]⟩ : Host).heard (fun _ => 0.5) (fun i => i + 2) n = told := by
  obtain ⟨hadd, hheard⟩ := budget_unobservable (fun _ => 0.5) repeatThenAsk
  refine ⟨⟨_, rfl, hadd 1 2 _ rfl⟩, ?_⟩
  exact hheard [['7']] _ _ (fun _ => Nat.one_pos) (fun i => Nat.succ_pos (i + 1))

end TwinTape
