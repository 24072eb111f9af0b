import TwinTape.Proofs.Calls
import TwinTape.Proofs.Courses
import TwinTape.Proofs.Structured
import Mathlib.Data.List.Induction

/-! # Sessions

A session is what a host does with a machine, call by call.  An `Exchange` is a call together with
the machine that gets it, and `Machine.exchanges` lists the exchanges of a row of calls.

An instruction that reads a line takes more than one call: it asks, waits, is given a line and
then reads it, and the host may make other calls in between.  While it lasts the machine is
`isReading`.  `Exchange.Treats` lists what an exchange can do about it, and each exchange of a
session does one of these things (`Reachable.treats`), so that facts about requests and lines are
read off this list. -/

namespace TwinTape

/-! ### Since -/

/-- Some member of the list has `P`, and all members after it have `Q`. -/
def Since {α : Type} (P Q : α → Prop) (xs : List α) : Prop :=
  ∃ earlier x later, xs = earlier ++ x :: later ∧ P x ∧ ∀ y ∈ later, Q y

section since
variable {α : Type} {P P' Q : α → Prop} {xs ys : List α} {z : α}

theorem Since.imp (h : Since P Q xs) (hP : ∀ x, P x → P' x) : Since P' Q xs := by
  obtain ⟨earlier, x, later, hxs, hx, hlater⟩ := h
  exact ⟨earlier, x, later, hxs, hP x hx, hlater⟩

theorem Since.append (h : Since P Q xs) (hys : ∀ y ∈ ys, Q y) : Since P Q (xs ++ ys) := by
  obtain ⟨earlier, x, later, rfl, hx, hlater⟩ := h
  refine ⟨earlier, x, later ++ ys, by simp, hx, ?_⟩
  exact List.forall_mem_append.2 ⟨hlater, hys⟩

theorem since_append_last (xs : List α) (hz : P z) : Since P Q (xs ++ [z]) :=
  ⟨xs, z, [], rfl, hz, by simp⟩

theorem since_append_singleton :
    Since P Q (xs ++ [z]) ↔ P z ∨ Since P Q xs ∧ Q z := by
  constructor
  · rintro ⟨earlier, x, later, hxs, hx, hlater⟩
    rcases List.eq_nil_or_concat later with rfl | ⟨rest, y, rfl⟩
    · obtain ⟨-, hz⟩ := List.append_inj' hxs rfl
      cases hz
      exact .inl hx
    · have hxs' : xs ++ [z] = (earlier ++ x :: rest) ++ [y] := by simpa using hxs
      obtain ⟨rfl, hz⟩ := List.append_inj' hxs' rfl
      cases hz
      rw [List.concat_eq_append, List.forall_mem_append] at hlater
      exact .inr ⟨⟨earlier, x, rest, rfl, hx, hlater.1⟩, hlater.2 z (by simp)⟩
  · rintro (hz | ⟨h, hz⟩)
    · exact since_append_last xs hz
    · exact h.append (by simpa using hz)

end since

/-! ### Exchanges -/

/-- A call, and the machine that gets it. -/
structure Exchange where
  machine : Machine
  call : Call

namespace Exchange
variable (x : Exchange)

/-- The answer to the call. -/
def answer : Answer := (x.machine.perform x.call).1

/-- The machine after the call. -/
def after : Machine := (x.machine.perform x.call).2

/-- The machines at which a step was taken. -/
def steps : List Machine :=
  match x.call with
  | .execute draws budget => (x.machine.executeLogged draws budget).1
  | _ => []

/-- The line that was taken, without its end. -/
def accepted? : Option (List Char) :=
  match x.call, x.answer with
  | .enter line, .taken true => some (lineContent line)
  | _, _ => none

/-- The answer is a request for a line. -/
def Asks (medium : Medium) : Prop := x.answer.event? = some (.input medium)

/-- A run is started, or none is going on after the call. -/
def breaksOff : Bool := x.call.starts || !x.after.isRunning

end Exchange

/-- The call lets the program go on by one step at least. -/
def Call.proceeds : Call → Bool
  | .execute _ budget => decide (0 < budget)
  | _ => false

namespace Machine

/-- The exchanges of calls that are made one after the other. -/
def exchanges (m : Machine) : List Call → List Exchange
  | [] => []
  | c :: calls => ⟨m, c⟩ :: (m.perform c).2.exchanges calls

variable {draws : Draws} {m next : Machine}

theorem performAll_append (m : Machine) (calls calls' : List Call) :
    (m.performAll (calls ++ calls')).2 = ((m.performAll calls).2.performAll calls').2 := by
  induction calls generalizing m with
  | nil => rfl
  | cons c calls ih => exact ih (m.perform c).2

theorem exchanges_append (m : Machine) (calls calls' : List Call) :
    m.exchanges (calls ++ calls') =
      m.exchanges calls ++ (m.performAll calls).2.exchanges calls' := by
  induction calls generalizing m with
  | nil => rfl
  | cons c calls ih =>
      rw [List.cons_append, exchanges, exchanges, ih]
      rfl

end Machine

namespace Session

/-- The machine after the calls of a session. -/
def machine (calls : List Call) : Machine := (Machine.performAll {} calls).2

/-- The exchanges of a session. -/
def log (calls : List Call) : List Exchange := Machine.exchanges {} calls

theorem reachable_machine (calls : List Call) : (machine calls).Reachable :=
  Machine.Reachable.new.performAll calls

theorem machine_append_singleton (calls : List Call) (c : Call) :
    machine (calls ++ [c]) = ((machine calls).perform c).2 :=
  Machine.performAll_append {} calls [c]

theorem log_append_singleton (calls : List Call) (c : Call) :
    log (calls ++ [c]) = log calls ++ [⟨machine calls, c⟩] :=
  Machine.exchanges_append {} calls [c]

end Session

/-! ### Instructions that read a line -/

namespace Machine
variable {draws : Draws} {m next : Machine}

/-- The instruction at the counter has asked for a line and has not read it yet. -/
def isReading (m : Machine) : Bool :=
  match m.phase with
  | .waiting => true
  | .supplied _ => true
  | _ => false

theorem isReading_iff :
    m.isReading = true ↔ m.phase = .waiting ∨ ∃ line, m.phase = .supplied line := by
  cases hp : m.phase <;> simp [isReading, hp]

theorem isRunning_of_isReading (h : m.isReading = true) : m.isRunning = true := by
  rcases isReading_iff.1 h with hp | ⟨line, hp⟩ <;> simp [isRunning, hp]

theorem Coherent.ready_of_input (h : m.Coherent) (hr : m.isRunning = true)
    (hread : m.isReading = false) {s : Scope} {medium : Medium}
    (hi : m.program.instruction? m.counter = some (.perform s (.input medium))) :
    m.phase = .ready := by
  cases hp : m.phase with
  | idle => simp [isRunning, hp] at hr
  | ready => rfl
  | waiting => simp [isReading, hp] at hread
  | supplied line => simp [isReading, hp] at hread
  | repeating r =>
      obtain ⟨⟨i, hi', haccepts, _⟩, _⟩ := h.repeating r hp
      rw [hi] at hi'
      cases hi'
      exact absurd haccepts Bool.false_ne_true

theorem Steps.isReading_of_none (hs : Steps draws m next none) (h : m.Coherent) :
    next.isReading = false := by
  cases hs with
  | @burst s times a r hi hr =>
      rw [repeatBurst_eq]
      by_cases hb : Machine.burst < r.left <;> simp [hb, isReading]
  | input => rfl
  | opening hi =>
      have hcalm := h.calm hi (by simp) rfl
      rcases hcalm with hp | hp <;> simp [stepOpening_eq, isReading, hp]
  | closing hi =>
      have hcalm := h.calm hi (by simp) rfl
      rcases hcalm with hp | hp <;> simp [stepClosing_eq, isReading, hp]
  | random hi | switchTape hi | output hi | reserved hi | swap hi =>
      have hcalm := h.calm hi (by simp) rfl
      rcases hcalm with hp | hp <;> simp [advance, goto, push, swapCells, isReading, hp]

/-- The steps of a call that finds no line asked for, its event and the machine after it: no step
sees a line, and in the end none is asked for, or the last step has asked. -/
inductive Clear : List Machine → Option Event → Machine → Prop
  | done {steps : List Machine} {e : Option Event} {after : Machine} :
      (∀ x ∈ steps, x.isReading = false) → after.isReading = false →
      (∀ medium, e ≠ some (.input medium)) → Clear steps e after
  | asked {steps : List Machine} {m : Machine} {s : Scope} {medium : Medium} :
      (∀ x ∈ steps, x.isReading = false) → m.phase = .ready → m.queue = [] →
      m.program.instruction? m.counter = some (.perform s (.input medium)) →
      Clear (steps ++ [m]) (some (.input medium)) { m with phase := .waiting }

theorem Clear.cons {steps : List Machine} {e : Option Event} {after : Machine}
    (h : Clear steps e after) (hm : m.isReading = false) : Clear (m :: steps) e after := by
  cases h with
  | done hsteps hafter he => exact .done (List.forall_mem_cons.2 ⟨hm, hsteps⟩) hafter he
  | asked hsteps hp hq hi => exact .asked (List.forall_mem_cons.2 ⟨hm, hsteps⟩) hp hq hi

theorem Clear.queue_of_isReading {steps : List Machine} {e : Option Event} {after : Machine}
    (h : Clear steps e after) (hread : after.isReading = true) : after.queue = [] := by
  cases h with
  | done _ hafter _ =>
      rw [hafter] at hread
      contradiction
  | asked _ _ hq _ => exact hq

theorem Steps.runLogged_eq (hs : Steps draws m next none) (hq : m.queue = [])
    (hc : m.counter < m.program.size) (budget : ℕ) :
    (∃ n queue, m.runLogged draws (budget + 1) =
      ([m], .notice n, { next with queue := queue })) ∨
    (next.queue = [] ∧ m.runLogged draws (budget + 1) =
      (m :: (next.runLogged draws budget).1, (next.runLogged draws budget).2)) := by
  rw [runLogged, if_neg (by omega), hs.step_eq]
  rcases hs.traced_queue hq m.counter with ⟨hall, hempty⟩ | ⟨n, queue, hall, _⟩
  · refine .inr ⟨hempty, ?_⟩
    simp only [hall]
  · refine .inl ⟨n, queue, ?_⟩
    simp only [hall]

theorem Coherent.clear_run (h : m.Coherent) (hq : m.queue = []) (hr : m.isRunning = true)
    (hread : m.isReading = false) (draws : Draws) (budget : ℕ) :
    Clear (m.runLogged draws budget).1 (some (m.runLogged draws budget).2.1)
      (m.runLogged draws budget).2.2 := by
  induction budget generalizing m with
  | zero => exact .done (by simp [runLogged]) hread (by simp [runLogged])
  | succ budget ih =>
      by_cases hc : m.program.size ≤ m.counter
      · rw [runLogged, if_pos hc]
        exact .done (by simp) rfl (by simp)
      · cases hstep : m.step draws with
        | error fault =>
            rw [runLogged, if_neg hc, hstep]
            exact .done (by simpa using hread) rfl (by simp)
        | ok p =>
            obtain ⟨next, _ | medium⟩ := p
            · have hs := step_eq_ok_iff.1 hstep
              have hnext := hs.isReading_of_none h
              rcases hs.runLogged_eq hq (by omega) budget with ⟨n, queue, hrun⟩ | ⟨hq', hrun⟩
              · rw [hrun]
                exact .done (by simpa using hread) hnext (by simp)
              · rw [hrun]
                exact (ih (hs.coherent h) hq' (hs.isRunning hr) hnext).cons hread
            · rw [runLogged, if_neg hc, hstep]
              cases step_eq_ok_iff.1 hstep with
              | @ask s _ hi _ =>
                  have hp := h.ready_of_input hr hread hi
                  exact @Clear.asked [] m s _ (by simp) hp hq hi

theorem Coherent.clear_execute (h : m.Coherent) (hread : m.isReading = false) (draws : Draws)
    (budget : ℕ) :
    Clear (m.executeLogged draws budget).1 (some (m.executeLogged draws budget).2.1)
      (m.executeLogged draws budget).2.2 := by
  unfold executeLogged
  cases hq : m.queue with
  | cons n queue => exact .done (by simp) hread (by simp)
  | nil =>
      dsimp only
      split
      · exact .done (by simp) rfl (by simp)
      · split
        · exact h.clear_run hq ‹_› hread draws budget
        · exact .done (by simp) hread (by simp)

theorem executeLogged_of_interrupted (hq : m.queue = []) (hi : m.interrupted = true)
    (draws : Draws) (budget : ℕ) : m.executeLogged draws budget =
      ([], .notice (.fault m.breakFault), { m.stop with interrupted := false }) := by
  simp [executeLogged, hq, hi]

/-- A machine that waits asks again, and stays as it is. -/
theorem Active.executeLogged_waiting (ha : m.Active) (hp : m.phase = .waiting) {s : Scope}
    {medium : Medium} (hi : m.program.instruction? m.counter = some (.perform s (.input medium)))
    (draws : Draws) (budget : ℕ) :
    m.executeLogged draws (budget + 1) = ([m], .input medium, m) := by
  have hlt := Program.lt_size_of_instruction? hi
  have hstep : m.step draws = .ok (m, some medium) := by
    have hs : Steps draws m { m with phase := .waiting } (some medium) :=
      .ask hi (by simp [hp])
    rw [hs.step_eq, ← hp]
  rw [ha.executeLogged_eq, runLogged, if_neg (by omega), hstep]

/-- The instruction at the counter reads a line and is given this one: its step stores what the
line stands for, or fails as the line does. -/
def Receives (m : Machine) (line : List Char) : Prop :=
  ∃ s medium, m.program.instruction? m.counter = some (.perform s (.input medium)) ∧
    m.phase = .supplied line ∧ ∀ draws, m.step draws = match medium.read line with
      | .ok x => .ok ({ m.setMemory s ((m.memory s).set x) with phase := .ready }.advance, none)
      | .error fault => .error (fault.located (m.program.position m.counter))

theorem Coherent.receives (h : m.Coherent) {line : List Char} (hp : m.phase = .supplied line) :
    m.Receives line := by
  obtain ⟨s, medium, hi⟩ := h.supplied line hp
  refine ⟨s, medium, hi, hp, fun draws => ?_⟩
  rw [step_of_instruction hi]
  simp only [stepInstruction, stepOperation, hp]
  cases medium.read line <;> rfl

/-- A machine that was given a line reads it first of all. -/
theorem Active.executeLogged_supplied (ha : m.Active) (h : m.Coherent) {line : List Char}
    (hp : m.phase = .supplied line) (draws : Draws) (budget : ℕ) :
    ∃ rest, (m.executeLogged draws (budget + 1)).1 = m :: rest ∧
      Clear rest (some (m.executeLogged draws (budget + 1)).2.1)
        (m.executeLogged draws (budget + 1)).2.2 := by
  obtain ⟨s, medium, hi⟩ := h.supplied line hp
  have hc := Program.lt_size_of_instruction? hi
  rw [ha.executeLogged_eq]
  cases hstep : m.step draws with
  | error fault =>
      rw [runLogged, if_neg (by omega), hstep]
      exact ⟨[], rfl, .done (by simp) rfl (by simp)⟩
  | ok p =>
      obtain ⟨next, _ | medium⟩ := p
      · have hs := step_eq_ok_iff.1 hstep
        have hnext := hs.isReading_of_none h
        rcases hs.runLogged_eq ha.queue hc budget with ⟨n, queue, hrun⟩ | ⟨hq, hrun⟩
        · rw [hrun]
          exact ⟨[], rfl, .done (by simp) hnext (by simp)⟩
        · rw [hrun]
          exact ⟨_, rfl, (hs.coherent h).clear_run hq (hs.isRunning ha.running) hnext draws budget⟩
      · cases step_eq_ok_iff.1 hstep with
        | ask _ hno => exact absurd hp (hno line)

theorem Reachable.queue_of_isReading (h : Reachable m) (hread : m.isReading = true) :
    m.queue = [] := by
  induction h with
  | new => simp [isReading] at hread
  | @runText m source text _ _ =>
      unfold Machine.runText at hread ⊢
      split
      · rfl
      · rename_i fault hfault
        rw [hfault] at hread
        simp [isReading, stop] at hread
  | load => rfl
  | @execute m draws budget h ih =>
      have hcoherent := h.coherent_quiet.1
      rw [← executeLogged_val] at hread ⊢
      by_cases hm : m.isReading = true
      · have hq := ih hm
        by_cases hi : m.interrupted = true
        · rw [executeLogged_of_interrupted hq hi]
          exact hq
        · have ha : m.Active := ⟨hq, by simpa using hi, isRunning_of_isReading hm⟩
          cases budget with
          | zero =>
              rw [ha.executeLogged_eq]
              exact hq
          | succ budget =>
              rcases isReading_iff.1 hm with hp | ⟨line, hp⟩
              · obtain ⟨s, medium, hi⟩ := hcoherent.waiting hp
                rw [ha.executeLogged_waiting hp hi]
                exact hq
              · obtain ⟨rest, -, hclear⟩ := ha.executeLogged_supplied hcoherent hp draws budget
                exact hclear.queue_of_isReading hread
      · have hclear := hcoherent.clear_execute (by simpa using hm) draws budget
        exact hclear.queue_of_isReading hread
  | @enter m line _ ih =>
      unfold Machine.enter at hread ⊢
      split at hread
      · rename_i hw
        rw [if_pos hw]
        refine ih ?_
        have hp : m.phase = .waiting := by simpa [isWaiting] using hw
        simp [isReading, hp]
      · rename_i hw
        rw [if_neg hw]
        exact ih hread
  | @interrupt m _ ih =>
      unfold Machine.interrupt at hread ⊢
      split at hread
      · rename_i hr
        rw [if_pos hr]
        exact ih hread
      · rename_i hr
        rw [if_neg hr]
        exact ih hread
  | setTracing on _ ih => exact ih hread

end Machine

/-! ### What a call does about a line -/

namespace Exchange

/-- The call is one that makes a machine drop the line it has or waits for. -/
def cutsOff (x : Exchange) : Bool := x.call.starts || (x.machine.interrupted && x.call.executes)

/-- What an exchange can do about a line. -/
inductive Treats (x : Exchange) : Prop
  /-- No line was asked for before. -/
  | clear : x.machine.isReading = false → x.accepted? = none →
      Machine.Clear x.steps x.answer.event? x.after → Treats x
  /-- The machine waits and asks again. -/
  | again {s : Scope} {medium : Medium} : x.machine.phase = .waiting →
      x.machine.program.instruction? x.machine.counter = some (.perform s (.input medium)) →
      x.Asks medium → x.steps = [x.machine] → x.after = x.machine → x.accepted? = none → Treats x
  /-- The machine waits and is given a line. -/
  | taken {line : List Char} : x.machine.phase = .waiting → x.accepted? = some line →
      x.answer.event? = none → x.steps = [] →
      x.after = { x.machine with phase := .supplied line } → x.call.starts = false → Treats x
  /-- The machine has a line and reads it. -/
  | read {line : List Char} {rest : List Machine} : x.machine.phase = .supplied line →
      x.call.proceeds = true → x.cutsOff = false → x.accepted? = none →
      x.steps = x.machine :: rest → Machine.Clear rest x.answer.event? x.after → Treats x
  /-- The line is dropped, or the request for it. -/
  | dropped : x.machine.isReading = true → x.cutsOff = true → x.breaksOff = true →
      x.accepted? = none → x.steps = [] → x.after.isReading = false →
      (∀ medium, ¬ x.Asks medium) → Treats x
  /-- The line is kept, or the request for it. -/
  | kept : x.machine.isReading = true → x.cutsOff = false → x.call.proceeds = false →
      x.accepted? = none → x.steps = [] → x.after.phase = x.machine.phase →
      x.machine.Untouched x.after → (∀ medium, ¬ x.Asks medium) → Treats x

theorem not_asks {x : Exchange} (h : x.answer.event? = none) (medium : Medium) :
    ¬ x.Asks medium := by
  simp [Asks, h]

end Exchange

namespace Machine
variable {m : Machine}

theorem enter_of_waiting (hp : m.phase = .waiting) (line : List Char) :
    m.enter line = (true, { m with phase := .supplied (lineContent line) }) := by
  simp [enter, isWaiting, hp, lineContent]

theorem enter_of_not_waiting (hp : m.phase ≠ .waiting) (line : List Char) :
    m.enter line = (false, m) := by
  simp [enter, isWaiting, hp]

theorem isReading_runText (m : Machine) (source text : String) :
    (m.runText source text).isReading = false := by
  unfold runText
  split <;> rfl

theorem phase_interrupt (m : Machine) : m.interrupt.phase = m.phase := by
  unfold interrupt
  split <;> rfl

theorem untouched_interrupt (m : Machine) : m.Untouched m.interrupt := by
  unfold interrupt
  split
  · exact ⟨rfl, rfl, rfl, rfl, rfl⟩
  · exact .refl m

theorem Coherent.treats_of_clear (h : m.Coherent) (hread : m.isReading = false) (c : Call) :
    Exchange.Treats ⟨m, c⟩ := by
  have hsame : ∀ m' : Machine, m'.phase = m.phase → Clear [] none m' := by
    intro m' hp
    refine .done (by simp) ?_ (by simp)
    rw [isReading, hp]
    exact hread
  have hpw : m.phase ≠ .waiting := by
    intro hp
    simp [isReading, hp] at hread
  cases c with
  | runText source text =>
      exact .clear hread rfl (.done (by simp [Exchange.steps]) (isReading_runText m source text)
        (by simp [Exchange.answer, perform, Answer.event?]))
  | load program =>
      exact .clear hread rfl (.done (by simp [Exchange.steps]) rfl
        (by simp [Exchange.answer, perform, Answer.event?]))
  | execute draws budget =>
      refine .clear hread rfl ?_
      have hclear := h.clear_execute hread draws budget
      rw [executeLogged_val] at hclear
      exact hclear
  | enter line =>
      have henter := enter_of_not_waiting hpw line
      refine .clear hread ?_ ?_
      · simp [Exchange.accepted?, Exchange.answer, perform, henter]
      · refine hsame _ ?_
        simp [Exchange.after, perform, henter]
  | interrupt => exact .clear hread rfl (hsame _ (phase_interrupt m))
  | setTracing on => exact .clear hread rfl (hsame _ rfl)

/-- A call of `execute` on a machine that waits for a line or has one. -/
theorem Coherent.treats_execute (h : m.Coherent) (hq : m.queue = []) (hread : m.isReading = true)
    (draws : Draws) (budget : ℕ) : Exchange.Treats ⟨m, .execute draws budget⟩ := by
  have hval := executeLogged_val draws budget m
  by_cases hi : m.interrupted = true
  · have hlog := executeLogged_of_interrupted hq hi draws budget
    have hexec : m.execute draws budget =
        (.notice (.fault m.breakFault), { m.stop with interrupted := false }) := by
      rw [← hval, hlog]
    refine .dropped hread ?_ ?_ rfl ?_ ?_ ?_
    · simp [Exchange.cutsOff, hi, Call.executes]
    · simp [Exchange.breaksOff, Exchange.after, perform, hexec, stop, isRunning]
    · simp [Exchange.steps, hlog]
    · simp [Exchange.after, perform, hexec, stop, isReading]
    · simp [Exchange.Asks, Exchange.answer, perform, hexec, Answer.event?]
  · rw [Bool.not_eq_true] at hi
    have ha : m.Active := ⟨hq, hi, isRunning_of_isReading hread⟩
    have hcut : Exchange.cutsOff ⟨m, .execute draws budget⟩ = false := by
      simp [Exchange.cutsOff, hi, Call.starts]
    cases budget with
    | zero =>
        have hexec : m.execute draws 0 = (.running, m) := ha.execute_zero
        refine .kept hread hcut rfl rfl ?_ ?_ ?_ ?_
        · simp [Exchange.steps, ha.executeLogged_eq, runLogged]
        · simp [Exchange.after, perform, hexec]
        · simpa [Exchange.after, perform, hexec] using Untouched.refl m
        · simp [Exchange.Asks, Exchange.answer, perform, hexec, Answer.event?]
    | succ budget =>
        rcases isReading_iff.1 hread with hp | ⟨line, hp⟩
        · obtain ⟨s, medium, hinstr⟩ := h.waiting hp
          have hlog := ha.executeLogged_waiting hp hinstr draws budget
          rw [hlog] at hval
          refine .again hp hinstr ?_ ?_ ?_ rfl
          · simp [Exchange.Asks, Exchange.answer, perform, ← hval, Answer.event?]
          · simp [Exchange.steps, hlog]
          · simp [Exchange.after, perform, ← hval]
        · obtain ⟨rest, hsteps, hclear⟩ := ha.executeLogged_supplied h hp draws budget
          rw [hval] at hclear
          exact .read hp (by simp [Call.proceeds]) hcut rfl hsteps hclear

/-- **What a call does about a line**: every call on a machine that a host can get does one of the
things listed. -/
theorem Reachable.treats (h : Reachable m) (c : Call) : Exchange.Treats ⟨m, c⟩ := by
  have hcoherent := h.coherent_quiet.1
  by_cases hread : m.isReading = true
  · cases c with
    | runText source text =>
        exact .dropped hread rfl rfl rfl rfl (isReading_runText m source text) (Exchange.not_asks rfl)
    | load program =>
        exact .dropped hread rfl rfl rfl rfl rfl (Exchange.not_asks rfl)
    | execute draws budget =>
        exact hcoherent.treats_execute (h.queue_of_isReading hread) hread draws budget
    | enter line =>
        rcases isReading_iff.1 hread with hp | ⟨line', hp⟩
        · have henter := enter_of_waiting hp line
          have haccepted : Exchange.accepted? ⟨m, .enter line⟩ = some (lineContent line) := by
            simp [Exchange.accepted?, Exchange.answer, Machine.perform, henter]
          refine .taken hp haccepted rfl rfl ?_ rfl
          simp [Exchange.after, Machine.perform, henter]
        · have henter := enter_of_not_waiting (m := m) (by simp [hp]) line
          refine .kept hread (by simp [Exchange.cutsOff, Call.starts, Call.executes]) rfl ?_ rfl ?_
            ?_ (Exchange.not_asks rfl)
          · simp [Exchange.accepted?, Exchange.answer, Machine.perform, henter]
          · simp [Exchange.after, Machine.perform, henter]
          · simpa [Exchange.after, Machine.perform, henter] using Untouched.refl m
    | interrupt =>
        exact .kept hread (by simp [Exchange.cutsOff, Call.starts, Call.executes]) rfl rfl rfl
          (phase_interrupt m) (untouched_interrupt m) (Exchange.not_asks rfl)
    | setTracing on =>
        exact .kept hread (by simp [Exchange.cutsOff, Call.starts, Call.executes]) rfl rfl rfl rfl
          ⟨rfl, rfl, rfl, rfl, rfl⟩ (Exchange.not_asks rfl)
  · exact hcoherent.treats_of_clear (by simpa using hread) c

end Machine
end TwinTape
