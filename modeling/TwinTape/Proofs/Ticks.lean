import TwinTape.Machine.Execute
import TwinTape.Proofs.Step
import Mathlib.Data.Nat.Find

/-! # Ticks

A tick is the smallest thing a machine does: it tells the oldest notice it has, or ends a run, or
takes one step and tells nothing.  What `Machine.execute` does with a budget is a row of silent
ticks and then one tick that tells (`execute_succ`), so a budget only says after how many silent
ticks the host gets `Event.running` instead.

A `Host` is a machine with the lines its user will enter.  `Host.drive` calls the machine again
and again, with a budget for each call, and answers each request with the next line;
`Host.ticks` is the same run tick by tick.  The events of a drive, but for `Event.running`, are
those of the ticks, whatever the budgets are as long as none is zero (`ends_iff_endsIn`). -/

namespace TwinTape

namespace Machine

variable {draws : Draws} {m next : Machine}

/-! ### One tick -/

/-- The fault of a run that was interrupted. -/
def breakFault (m : Machine) : Fault :=
  let fault : Fault := { kind := .interrupted }
  (fault.located (m.program.position m.counter)).inSource m.program.source

/-- Tells one event, or takes one step. -/
def tick (draws : Draws) (m : Machine) : Option Event × Machine :=
  match m.queue with
  | n :: queue => (some (.notice n), { m with queue := queue })
  | [] =>
    if m.interrupted then
      (some (.notice (.fault m.breakFault)), { m.stop with interrupted := false })
    else if m.isRunning then
      if m.program.size ≤ m.counter then (some .stopped, m.stop)
      else match m.step draws with
        | .error fault =>
          (some (.notice (.fault (fault.inSource m.program.source))), { m.stop with queue := [] })
        | .ok (next, some medium) => (some (.input medium), next)
        | .ok (next, none) => (none, next.traced m.counter)
    else (some .stopped, m)

/-- Nothing has to be told before the next step. -/
structure Active (m : Machine) : Prop where
  queue : m.queue = []
  interrupted : m.interrupted = false
  running : m.isRunning = true

theorem tick_of_queue {n : Notice} {queue : List Notice} (h : m.queue = n :: queue) :
    m.tick draws = (some (.notice n), { m with queue := queue }) := by
  simp [tick, h]

theorem tick_of_interrupted (hq : m.queue = []) (hi : m.interrupted = true) :
    m.tick draws =
      (some (.notice (.fault m.breakFault)), { m.stop with interrupted := false }) := by
  simp [tick, hq, hi]

theorem tick_of_idle (hq : m.queue = []) (hi : m.interrupted = false)
    (hr : m.isRunning = false) : m.tick draws = (some .stopped, m) := by
  simp [tick, hq, hi, hr]

/-- A machine that is not active has a notice, or was interrupted, or does not run. -/
theorem cases_of_not_active (h : ¬ m.Active) :
    (∃ n queue, m.queue = n :: queue) ∨ (m.queue = [] ∧ m.interrupted = true) ∨
      (m.queue = [] ∧ m.interrupted = false ∧ m.isRunning = false) := by
  cases hq : m.queue with
  | cons n queue => exact .inl ⟨n, queue, rfl⟩
  | nil =>
      cases hi : m.interrupted with
      | true => exact .inr (.inl ⟨rfl, rfl⟩)
      | false =>
          refine .inr (.inr ⟨rfl, rfl, ?_⟩)
          rw [← Bool.not_eq_true]
          exact fun hr => h ⟨hq, hi, hr⟩

theorem Active.tick_eq (h : m.Active) : m.tick draws =
    if m.program.size ≤ m.counter then (some .stopped, m.stop)
    else match m.step draws with
      | .error fault =>
        (some (.notice (.fault (fault.inSource m.program.source))), { m.stop with queue := [] })
      | .ok (next, some medium) => (some (.input medium), next)
      | .ok (next, none) => (none, next.traced m.counter) := by
  simp [tick, h.queue, h.interrupted, h.running]

theorem Active.execute_eq (h : m.Active) (budget : ℕ) :
    m.execute draws budget = m.run draws budget := by
  simp [execute, h.queue, h.interrupted, h.running]

theorem execute_of_queue {n : Notice} {queue : List Notice} (h : m.queue = n :: queue)
    (budget : ℕ) : m.execute draws budget = (.notice n, { m with queue := queue }) := by
  simp [execute, h]

/-- A machine that has something to tell tells it, whatever the budget is. -/
theorem execute_of_not_active (draws : Draws) (h : ¬ m.Active) (budget : ℕ) :
    ∃ e, m.tick draws = (some e, (m.execute draws budget).2) ∧ (m.execute draws budget).1 = e := by
  rcases cases_of_not_active h with ⟨n, queue, hq⟩ | ⟨hq, hi⟩ | ⟨hq, hi, hr⟩
  · simp [tick, execute, hq]
  · simp [tick, execute, hq, hi, breakFault]
  · simp [tick, execute, hq, hi, hr]

theorem execute_of_tick {e : Event} (h : ¬ m.Active) (ht : m.tick draws = (some e, next))
    (budget : ℕ) : m.execute draws budget = (e, next) := by
  obtain ⟨e', ht', he⟩ := execute_of_not_active draws h budget
  rw [ht] at ht'
  obtain ⟨hevent, hnext⟩ := Prod.mk.inj ht'
  exact Prod.ext (he.trans (Option.some.inj hevent).symm) hnext.symm

theorem traced_eq_or (m : Machine) (a : ℕ) :
    m.traced a = m ∨ m.traced a = m.push (.trace a) := by
  unfold traced
  split
  · exact .inl rfl
  · split
    · exact .inr rfl
    · exact .inl rfl

/-- With a step more in the budget there is one silent tick more. -/
theorem execute_succ (draws : Draws) (budget : ℕ) (m : Machine) :
    m.execute draws (budget + 1) = match m.tick draws with
      | (some e, after) => (e, after)
      | (none, after) => after.execute draws budget := by
  by_cases h : m.Active
  · rw [h.execute_eq, h.tick_eq, run]
    by_cases hc : m.program.size ≤ m.counter
    · rw [if_pos hc, if_pos hc]
    · rw [if_neg hc, if_neg hc]
      cases hs : m.step draws with
      | error fault => rfl
      | ok p =>
          obtain ⟨next, _ | medium⟩ := p
          · have hsteps := step_eq_ok_iff.1 hs
            rcases hq : (next.traced m.counter).queue with _ | ⟨n, queue⟩
            · have htr : next.traced m.counter = next := by
                cases traced_eq_or next m.counter with
                | inl h' => exact h'
                | inr h' =>
                    rw [h'] at hq
                    simp [push] at hq
              have hact : next.Active :=
                ⟨by rw [← htr]; exact hq, by rw [hsteps.frame.2.1]; exact h.interrupted,
                  hsteps.isRunning h.running⟩
              simp only [htr, hact.queue]
              rw [hact.execute_eq]
            · simp only [hq]
              rw [execute_of_queue hq]
              cases traced_eq_or next m.counter with
              | inl h' => rw [h']
              | inr h' =>
                  rw [h']
                  rfl
          · rfl
  · obtain ⟨e, ht, he⟩ := execute_of_not_active draws h (budget + 1)
    rw [ht, ← he]

theorem Active.execute_zero (h : m.Active) : m.execute draws 0 = (.running, m) := by
  rw [h.execute_eq, run]

theorem tick_ne_running (draws : Draws) (m : Machine) : (m.tick draws).1 ≠ some .running := by
  unfold tick
  repeat' split
  all_goals simp

end Machine

/-! ### Hosts -/

/-- A machine, and the lines that will be entered when it asks for them. -/
structure Host where
  machine : Machine
  lines : List (List Char)

/-- The event ends a run: nothing runs any more. -/
def Event.isFinal : Event → Bool
  | .stopped => true
  | .notice (.fault _) => true
  | _ => false

namespace Host

/-- The host after an event: a machine that waits gets the next line. -/
def receive (e : Event) (m : Machine) (lines : List (List Char)) : Host :=
  match e, lines with
  | .input _, line :: lines => ⟨(m.enter line).2, lines⟩
  | _, _ => ⟨m, lines⟩

/-- One call of the machine. -/
def call (draws : Draws) (budget : ℕ) (h : Host) : Event × Host :=
  let (e, m) := h.machine.execute draws budget
  (e, receive e m h.lines)

/-- The events of the first `n` calls, where call number `i` has the budget `budgets i`. -/
def drive (draws : Draws) (budgets : ℕ → ℕ) : ℕ → Host → List Event × Host
  | 0, h => ([], h)
  | n + 1, h =>
    let (e, h) := h.call draws (budgets 0)
    let (es, h) := drive draws (fun i => budgets (i + 1)) n h
    (e :: es, h)

/-- One tick of the machine. -/
def tick (draws : Draws) (h : Host) : Option Event × Host :=
  match h.machine.tick draws with
  | (some e, m) => (some e, receive e m h.lines)
  | (none, m) => (none, ⟨m, h.lines⟩)

/-- The events of the first `n` ticks. -/
def ticks (draws : Draws) : ℕ → Host → List Event × Host
  | 0, h => ([], h)
  | n + 1, h =>
    let (e, h) := h.tick draws
    let (es, h) := ticks draws n h
    (e.toList ++ es, h)

variable {draws : Draws} {h h' h₁ h₂ : Host} {e e' : Event} {es es' : List Event} {n k : ℕ}

theorem ticks_succ_none (ht : h.tick draws = (none, h')) :
    h.ticks draws (n + 1) = h'.ticks draws n := by
  simp [ticks, ht]

theorem ticks_succ_some (ht : h.tick draws = (some e, h')) :
    h.ticks draws (n + 1) = (e :: (h'.ticks draws n).1, (h'.ticks draws n).2) := by
  simp [ticks, ht]

theorem ticks_add (hn : h.ticks draws n = (es, h')) (k : ℕ) :
    h.ticks draws (n + k) = (es ++ (h'.ticks draws k).1, (h'.ticks draws k).2) := by
  induction n generalizing h es with
  | zero =>
      cases hn
      simp
  | succ n ih =>
      rw [Nat.succ_add]
      rcases ht : h.tick draws with ⟨_ | e, h₁⟩
      · rw [ticks_succ_none ht] at hn ⊢
        exact ih hn
      · rw [ticks_succ_some ht] at hn ⊢
        cases hn
        rw [ih rfl]
        rfl

theorem ticks_tell (hn : h.ticks draws n = (es, h₁)) (ht : h₁.tick draws = (some e, h₂)) (k : ℕ) :
    h.ticks draws (n + (k + 1)) = (es ++ e :: (h₂.ticks draws k).1, (h₂.ticks draws k).2) := by
  rw [ticks_add hn, ticks_succ_some ht]

theorem tick_ne_running (draws : Draws) (h : Host) : (h.tick draws).1 ≠ some .running := by
  have := h.machine.tick_ne_running draws
  unfold tick
  split
  · rename_i e m hm
    rw [hm] at this
    exact this
  · simp

/-! ### Budgets -/

/-- A call is a row of silent ticks; then it tells, or the budget is used up. -/
theorem call_cases (draws : Draws) (budget : ℕ) (h : Host) : ∃ n h₁, h.ticks draws n = ([], h₁) ∧
    ((n = budget ∧ h.call draws budget = (.running, h₁)) ∨
      ∃ e h₂, h₁.tick draws = (some e, h₂) ∧ h.call draws budget = (e, h₂)) := by
  induction budget generalizing h with
  | zero =>
      refine ⟨0, h, rfl, ?_⟩
      by_cases ha : h.machine.Active
      · refine .inl ⟨rfl, ?_⟩
        simp [call, ha.execute_zero, receive]
      · obtain ⟨e, ht, he⟩ := Machine.execute_of_not_active draws ha 0
        refine .inr ⟨e, receive e (h.machine.execute draws 0).2 h.lines, ?_, ?_⟩
        · simp [tick, ht]
        · simp [call, ← he]
  | succ budget ih =>
      rcases ht : h.machine.tick draws with ⟨_ | e, m⟩
      · obtain ⟨n, h₁, hn, hcall⟩ := ih ⟨m, h.lines⟩
        have htick : h.tick draws = (none, ⟨m, h.lines⟩) := by simp [tick, ht]
        have hsame : h.call draws (budget + 1) = Host.call draws budget ⟨m, h.lines⟩ := by
          simp [call, Machine.execute_succ, ht]
        refine ⟨n + 1, h₁, by rw [ticks_succ_none htick, hn], ?_⟩
        rw [hsame]
        rcases hcall with ⟨rfl, hc⟩ | htell
        · exact .inl ⟨rfl, hc⟩
        · exact .inr htell
      · refine ⟨0, h, rfl, .inr ⟨e, receive e m h.lines, ?_, ?_⟩⟩
        · simp [tick, ht]
        · simp [call, Machine.execute_succ, ht]

/-- The events other than `Event.running`. -/
def told (es : List Event) : List Event :=
  es.filter fun e => match e with | .running => false | _ => true

@[simp] theorem told_nil : told [] = [] := rfl

@[simp] theorem told_running (es : List Event) : told (.running :: es) = told es := rfl

theorem told_cons (he : e ≠ .running) (es : List Event) : told (e :: es) = e :: told es := by
  cases e <;> first | rfl | exact absurd rfl he

/-- The run ends with the event `e`, after the events `es` of its ticks. -/
def EndsIn (draws : Draws) (h : Host) (es : List Event) (e : Event) (h' : Host) : Prop :=
  ∃ n h₁, h.ticks draws n = (es, h₁) ∧ h₁.tick draws = (some e, h') ∧ e.isFinal ∧
    ∀ x ∈ es, ¬ x.isFinal

/-- The drive ends with the event `e`, after the events `es` of its calls. -/
def Ends (draws : Draws) (budgets : ℕ → ℕ) (h : Host) (es : List Event) (e : Event)
    (h' : Host) : Prop :=
  ∃ n, h.drive draws budgets n = (es ++ [e], h') ∧ e.isFinal ∧ ∀ x ∈ es, ¬ x.isFinal

/-- A run ends in one way only. -/
theorem EndsIn.unique (hd : h.EndsIn draws es e h₁) (hd' : h.EndsIn draws es' e' h₂) :
    es = es' ∧ e = e' ∧ h₁ = h₂ := by
  obtain ⟨n, m, hn, ht, he, hes⟩ := hd
  obtain ⟨n', m', hn', ht', he', hes'⟩ := hd'
  rcases Nat.lt_trichotomy n n' with hlt | rfl | hlt
  · obtain ⟨d, rfl⟩ : ∃ d, n' = n + (d + 1) := ⟨n' - n - 1, by omega⟩
    rw [ticks_tell hn ht d] at hn'
    cases hn'
    exact absurd he (hes' e (by simp))
  · rw [hn] at hn'
    cases hn'
    rw [ht] at ht'
    cases ht'
    exact ⟨rfl, rfl, rfl⟩
  · obtain ⟨d, rfl⟩ : ∃ d, n = n' + (d + 1) := ⟨n - n' - 1, by omega⟩
    rw [ticks_tell hn' ht' d] at hn
    cases hn
    exact absurd he' (hes e' (by simp))

/-- The calls up to one that tells, as ticks. -/
theorem ticks_of_drive {budgets : ℕ → ℕ} (hd : h.drive draws budgets n = (es ++ [e], h'))
    (he : e ≠ .running) :
    ∃ k h₁, h.ticks draws k = (told es, h₁) ∧ h₁.tick draws = (some e, h') := by
  induction n generalizing h es budgets with
  | zero => simp [drive] at hd
  | succ n ih =>
      obtain ⟨k, h₁, hk, hcall⟩ := call_cases draws (budgets 0) h
      simp only [drive] at hd
      rcases hrest : Host.drive draws (fun i => budgets (i + 1)) n (h.call draws (budgets 0)).2 with
        ⟨es', h''⟩
      rw [hrest] at hd
      cases es with
      | nil =>
          simp only [List.nil_append, Prod.mk.injEq, List.cons.injEq] at hd
          obtain ⟨⟨rfl, rfl⟩, rfl⟩ := hd
          cases n with
          | succ n => simp [drive] at hrest
          | zero =>
              cases hrest
              rcases hcall with ⟨_, hc⟩ | ⟨e', h₂, ht, hc⟩
              · simp [hc] at he
              · exact ⟨k, h₁, hk, by rw [ht, hc]⟩
      | cons x xs =>
          simp only [List.cons_append, Prod.mk.injEq, List.cons.injEq] at hd
          obtain ⟨⟨rfl, rfl⟩, rfl⟩ := hd
          obtain ⟨k', h₂, hk', ht⟩ := ih hrest
          rcases hcall with ⟨_, hc⟩ | ⟨e', h₃, ht', hc⟩
          · rw [hc] at hk'
            refine ⟨k + k', h₂, ?_, ht⟩
            rw [ticks_add hk, hk', hc]
            rfl
          · rw [hc] at hk'
            refine ⟨k + (k' + 1), h₂, ?_, ht⟩
            have hne : e' ≠ .running := by
              rintro rfl
              exact tick_ne_running draws h₁ (by rw [ht'])
            rw [ticks_tell hk ht', hk', hc, told_cons hne]
            rfl

theorem le_of_silent (hk : h.ticks draws k = (es, h₁)) (ht : h₁.tick draws = (some e, h₂))
    (hn : h.ticks draws n = ([], h')) : n ≤ k := by
  by_contra hlt
  obtain ⟨d, rfl⟩ : ∃ d, n = k + (d + 1) := ⟨n - k - 1, by omega⟩
  rw [ticks_tell hk ht d] at hn
  simp at hn

/-- The ticks up to one that tells, as calls. -/
theorem drive_of_ticks {budgets : ℕ → ℕ} (hb : ∀ i, 0 < budgets i)
    (hk : h.ticks draws k = (es, h₁)) (ht : h₁.tick draws = (some e, h')) :
    ∃ n xs, h.drive draws budgets n = (xs ++ [e], h') ∧ told xs = es := by
  induction k using Nat.strong_induction_on generalizing h es budgets with
  | _ k ih =>
      obtain ⟨j, h₂, hj, hcall⟩ := call_cases draws (budgets 0) h
      have hjk := le_of_silent hk ht hj
      obtain ⟨d, rfl⟩ : ∃ d, k = j + d := ⟨k - j, by omega⟩
      rw [ticks_add hj] at hk
      rcases hcall with ⟨rfl, hc⟩ | ⟨e', h₃, ht', hc⟩
      · have hpos := hb 0
        obtain ⟨n, xs, hdrive, htold⟩ := ih d (by omega) (fun i => hb (i + 1)) hk
        refine ⟨n + 1, .running :: xs, ?_, htold⟩
        simp [drive, hc, hdrive]
      · cases d with
        | zero =>
            obtain ⟨rfl, rfl⟩ := Prod.mk.inj hk
            obtain ⟨he, rfl⟩ := Prod.mk.inj (ht'.symm.trans ht)
            cases he
            exact ⟨1, [], by simp [drive, hc], rfl⟩
        | succ d =>
            rw [ticks_succ_some ht'] at hk
            cases hk
            obtain ⟨n, xs, hdrive, htold⟩ := ih d (by omega) (fun i => hb (i + 1)) rfl
            have hne : e' ≠ .running := by
              rintro rfl
              exact tick_ne_running draws h₂ (by rw [ht'])
            refine ⟨n + 1, e' :: xs, ?_, ?_⟩
            · simp [drive, hc, hdrive]
            · rw [told_cons hne, htold]
              rfl

/-- **The budgets are not seen**: a drive without empty budgets ends as the ticks do. -/
theorem ends_iff_endsIn {budgets : ℕ → ℕ} (hb : ∀ i, 0 < budgets i) :
    (∃ xs, told xs = es ∧ h.Ends draws budgets xs e h') ↔ h.EndsIn draws es e h' := by
  constructor
  · rintro ⟨xs, rfl, n, hd, he, hxs⟩
    have hne : e ≠ .running := by
      rintro rfl
      simp [Event.isFinal] at he
    obtain ⟨k, h₁, hk, ht⟩ := ticks_of_drive hd hne
    exact ⟨k, h₁, hk, ht, he, fun x hx => hxs x (List.mem_filter.1 hx).1⟩
  · rintro ⟨k, h₁, hk, ht, he, hes⟩
    obtain ⟨n, xs, hd, rfl⟩ := drive_of_ticks hb hk ht
    refine ⟨xs, rfl, n, hd, he, fun x hx hfin => ?_⟩
    have hmem : x ∈ told xs := by
      refine List.mem_filter.2 ⟨hx, ?_⟩
      cases x <;> simp_all [Event.isFinal]
    exact hes x hmem hfin

end Host

end TwinTape
