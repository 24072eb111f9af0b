import TwinTape.Proofs.Failures
import TwinTape.Proofs.Transcript

/-! # Lines and errors on the screen

Whatever a shell is asked to do, each report stands on lines of its own, and the screen is left at
the start of a line when the shell ends.  A run writes at most one report of an error, nothing but
the memories at the end follows it, and a run fails if and only if it has written one
(`Shell.output_disciplined`).

A shell asks a program to stop only while it runs, and starts programs only when none runs; its
machine is then `Orderly`.  When an orderly machine has told a fault it has nothing more to tell and
rests (`Machine.Orderly.execute`).  So after an error the run is over with the next turn
(`Shell.Progress.turn`). -/

namespace TwinTape

namespace Machine
variable {draws : Draws} {m : Machine} {budget : ℕ}

/-! ### Machines that rest -/

/-- Nothing runs, and there is nothing to tell. -/
structure Rests (m : Machine) : Prop where
  running : m.isRunning = false
  queue : m.queue = []
  interrupted : m.interrupted = false

theorem Rests.execute_eq (h : m.Rests) : m.execute draws budget = (.stopped, m) := by
  simp [execute, h.queue, h.interrupted, h.running]

/-- Only a program that runs has been asked to stop. -/
structure Orderly (m : Machine) : Prop where
  reachable : Reachable m
  interrupted : m.isRunning = false → m.interrupted = false

theorem Active.run_rests (h : m.Active) (draws : Draws) (budget : ℕ) :
    (m.run draws budget).2.interrupted = false ∧
      ((m.run draws budget).1.isFinal = true → (m.run draws budget).2.Rests) := by
  induction budget generalizing m with
  | zero => exact ⟨h.interrupted, fun hfinal => absurd hfinal Bool.false_ne_true⟩
  | succ budget ih =>
      rw [run]
      by_cases hc : m.program.size ≤ m.counter
      · rw [if_pos hc]
        exact ⟨h.interrupted, fun _ => ⟨rfl, h.queue, h.interrupted⟩⟩
      · rw [if_neg hc]
        cases hstep : m.step draws with
        | error fault => exact ⟨h.interrupted, fun _ => ⟨rfl, rfl, h.interrupted⟩⟩
        | ok result =>
            obtain ⟨next, wait⟩ := result
            have hs := step_eq_ok_iff.1 hstep
            have hi : next.interrupted = false := hs.frame.2.1.trans h.interrupted
            cases wait with
            | some medium => exact ⟨hi, fun hfinal => absurd hfinal Bool.false_ne_true⟩
            | none =>
                dsimp only
                rcases hs.traced_queue h.queue m.counter with ⟨hall, hempty⟩ |
                  ⟨n, queue, hall, hn, _⟩
                · rw [hall]
                  exact ih ⟨hempty, hi, hs.isRunning h.running⟩
                · rw [hall]
                  refine ⟨hi, fun hfinal => ?_⟩
                  cases n with
                  | fault f => exact absurd rfl (hn f)
                  | print | warning | trace => exact absurd hfinal Bool.false_ne_true

/-- After the end of a run and after a fault, an orderly machine rests. -/
theorem Orderly.execute (h : m.Orderly) (draws : Draws) (budget : ℕ) :
    (m.execute draws budget).2.Orderly ∧
      ((m.execute draws budget).1.isFinal = true → (m.execute draws budget).2.Rests) := by
  have hreach : Reachable (m.execute draws budget).2 := .execute draws budget h.reachable
  obtain ⟨_, hquiet⟩ := h.reachable.coherent_quiet
  by_cases ha : m.Active
  · obtain ⟨hi, hrests⟩ := ha.run_rests draws budget
    rw [ha.execute_eq] at hreach ⊢
    exact ⟨⟨hreach, fun _ => hi⟩, hrests⟩
  · rcases cases_of_not_active ha with ⟨n, queue, hq⟩ | ⟨hq, hi⟩ | ⟨hq, hi, hr⟩
    · rw [execute_of_queue hq] at hreach ⊢
      refine ⟨⟨hreach, h.interrupted⟩, fun hfinal => ?_⟩
      rcases hquiet with hq' | ⟨a, hq'⟩ | ⟨source, text, f, _, hq', hr⟩
      · rw [hq'] at hq
        contradiction
      · rw [hq'] at hq
        cases hq
        exact absurd hfinal Bool.false_ne_true
      · rw [hq'] at hq
        cases hq
        exact ⟨hr, rfl, h.interrupted hr⟩
    · rw [execute_of_tick ha (tick_of_interrupted hq hi)] at hreach ⊢
      exact ⟨⟨hreach, fun _ => rfl⟩, fun _ => ⟨rfl, hq, rfl⟩⟩
    · rw [execute_of_tick ha (tick_of_idle hq hi hr)]
      exact ⟨h, fun _ => ⟨hr, hq, hi⟩⟩

theorem Orderly.runText (h : m.Orderly) (hr : m.isRunning = false) (source text : String) :
    (m.runText source text).Orderly := by
  refine ⟨.runText source text h.reachable, fun _ => ?_⟩
  unfold Machine.runText
  split
  · rfl
  · exact h.interrupted hr

theorem Orderly.enter (h : m.Orderly) (line : List Char) : (m.enter line).2.Orderly := by
  refine ⟨.enter line h.reachable, ?_⟩
  unfold Machine.enter
  split
  · intro hr
    exact absurd hr (by simp [isRunning])
  · exact h.interrupted

theorem Orderly.interrupt (h : m.Orderly) : m.interrupt.Orderly := by
  refine ⟨.interrupt h.reachable, ?_⟩
  unfold Machine.interrupt
  split
  · rename_i hr
    intro hr'
    exact absurd (hr.symm.trans hr') (by decide)
  · exact h.interrupted

end Machine

/-! ### Sorts of strokes -/

namespace Stroke

/-- The stroke reports an error. -/
def isError : Stroke → Bool
  | report .error _ => true
  | _ => false

/-- The stroke may follow an error: it ends a line, or reports a memory. -/
def isClosing : Stroke → Bool
  | lineEnd => true
  | report .debug _ => true
  | _ => false

theorem isError_of_isClosing {x : Stroke} (h : x.isClosing = true) : x.isError = false := by
  match x with
  | lineEnd | report .debug _ => rfl
  | output _ | report .error _ | report .warning _ | report .heavyDebug _ =>
      exact absurd h Bool.false_ne_true

/-- Nothing but the end of a line and the memories is written after an error. -/
def ErrorsLast (strokes : List Stroke) : Prop :=
  strokes.Pairwise fun x y => x.isError = true → y.isClosing = true

variable {strokes : List Stroke}

theorem countP_isError_eq_zero (h : ∀ x ∈ strokes, x.isError = false) :
    strokes.countP isError = 0 := by
  rw [List.countP_eq_zero]
  intro x hx
  simp [h x hx]

theorem errorsLast_of_no_error (h : ∀ x ∈ strokes, x.isError = false) : ErrorsLast strokes := by
  refine List.pairwise_of_forall_mem_list fun x hx y _ hxe => ?_
  rw [h x hx] at hxe
  contradiction

theorem errorsLast_append_error {e : Stroke} (h : ∀ x ∈ strokes, x.isError = false)
    (he : e.isError = true) :
    (strokes ++ [e]).countP isError = 1 ∧ ErrorsLast (strokes ++ [e]) := by
  constructor
  · rw [List.countP_append, countP_isError_eq_zero h, List.countP_singleton, if_pos he]
  · refine List.pairwise_append.2 ⟨errorsLast_of_no_error h, List.pairwise_singleton _ _, ?_⟩
    intro x hx y _ hxe
    rw [h x hx] at hxe
    contradiction

theorem ErrorsLast.append_closing {closing : List Stroke} (h : ErrorsLast strokes)
    (hclosing : ∀ x ∈ closing, x.isClosing = true) :
    (strokes ++ closing).countP isError = strokes.countP isError ∧
      ErrorsLast (strokes ++ closing) := by
  have hnone : ∀ x ∈ closing, x.isError = false :=
    fun x hx => isError_of_isClosing (hclosing x hx)
  constructor
  · rw [List.countP_append, countP_isError_eq_zero hnone, Nat.add_zero]
  · exact List.pairwise_append.2
      ⟨h, errorsLast_of_no_error hnone, fun _ _ y hy _ => hclosing y hy⟩

end Stroke

namespace Shell
variable {draws : Draws} {o : Options} {s next : Shell} {strokes : List Stroke}

theorem isClosing_of_mem_debugStrokes {text : String} {x : Stroke}
    (hx : x ∈ s.debugStrokes text) : x.isClosing = true := by
  unfold debugStrokes at hx
  split at hx
  · rw [List.mem_singleton.1 hx]
    rfl
  · exact absurd hx List.not_mem_nil

theorem isClosing_of_mem_concludeStrokes {x : Stroke} (hx : x ∈ s.concludeStrokes) :
    x.isClosing = true := by
  rw [concludeStrokes, List.mem_cons, List.mem_append] at hx
  rcases hx with rfl | hx | hx
  · rfl
  · exact isClosing_of_mem_debugStrokes hx
  · exact isClosing_of_mem_debugStrokes hx

theorem isError_of_mem_jumpStrokes {p : Program} {x : Stroke} (hx : x ∈ s.jumpStrokes p) :
    x.isError = false := by
  unfold jumpStrokes at hx
  split at hx
  · dsimp only at hx
    split at hx
    · rw [List.mem_singleton.1 hx]
      rfl
    · rw [List.mem_cons, List.mem_singleton] at hx
      rcases hx with rfl | rfl
      · rfl
      · rfl
  · exact absurd hx List.not_mem_nil

theorem isError_of_mem_startStrokes {source text : String} {x : Stroke}
    (hx : x ∈ s.startStrokes source text) : x.isError = false := by
  unfold startStrokes at hx
  dsimp only at hx
  rw [List.mem_append] at hx
  rcases hx with hx | hx
  · exact Stroke.isError_of_isClosing (isClosing_of_mem_debugStrokes hx)
  · split at hx
    · rcases List.mem_append.1 hx with hx | hx
      · exact Stroke.isError_of_isClosing (isClosing_of_mem_debugStrokes hx)
      · exact isError_of_mem_jumpStrokes hx
    · exact absurd hx List.not_mem_nil

theorem isError_of_mem_notifyStrokes {n : Notice} (hn : n.isFault = false) {x : Stroke}
    (hx : x ∈ s.notifyStrokes n) : x.isError = false := by
  cases n with
  | fault f => exact absurd hn (by simp [Notice.isFault])
  | print output =>
      rw [List.mem_singleton.1 hx]
      rfl
  | warning w =>
      simp only [notifyStrokes] at hx
      split at hx
      · rw [List.mem_singleton.1 hx]
        rfl
      · exact absurd hx List.not_mem_nil
  | trace address =>
      simp only [notifyStrokes] at hx
      split at hx
      · rw [List.mem_singleton.1 hx]
        rfl
      · exact absurd hx List.not_mem_nil

/-! ### Sound shells -/

/-- What a shell with the options `o` can rely on. -/
structure Sound (o : Options) (s : Shell) : Prop where
  options : s.options = o
  machine : s.machine.Orderly
  /-- No line is open when a program does not run, or waits for a line. -/
  closed : s.activity ≠ .driving → s.screen.midLine = false
  /-- Nothing runs when the next program is to be read. -/
  prompting : s.activity = .prompting → s.machine.isRunning = false

theorem sound_of_driving (hoptions : s.options = o) (hmachine : s.machine.Orderly)
    (ha : s.activity = .driving) : s.Sound o := by
  refine ⟨hoptions, hmachine, fun hne => absurd ha hne, fun hp => ?_⟩
  rw [ha] at hp
  contradiction

theorem sound_of_closed (hoptions : s.options = o) (hmachine : s.machine.Orderly)
    (hmid : s.screen.midLine = false) (ha : s.activity ≠ .prompting) : s.Sound o :=
  ⟨hoptions, hmachine, fun _ => hmid, fun hp => absurd hp ha⟩

theorem midLine_concludeStrokes (screen : Screen) (s : Shell) :
    (screen.drawAll s.concludeStrokes).midLine = false := by
  have hdebug : ∀ (screen : Screen) text, screen.midLine = false →
      (screen.drawAll (s.debugStrokes text)).midLine = false := by
    intro screen text h
    unfold debugStrokes
    split
    · exact screen.midLine_report _ _
    · exact h
  have hsplit : screen.drawAll s.concludeStrokes =
      (screen.finishLine.drawAll (s.debugStrokes _)).drawAll (s.debugStrokes _) :=
    Screen.drawAll_append _ _
  rw [hsplit]
  exact hdebug _ _ (hdebug _ _ screen.midLine_finishLine)

theorem sound_idle (o : Options) : (idle o).Sound o where
  options := rfl
  machine := ⟨.setTracing _ .new, fun _ => rfl⟩
  closed _ := rfl
  prompting _ := rfl

theorem Sound.start (h : s.Sound o) (ha : s.activity = .prompting) (source text : String) :
    (s.start source text).Sound o := by
  rw [start_eq]
  exact sound_of_driving h.options (h.machine.runText (h.prompting ha) source text) rfl

theorem sound_ofOptions (lookup : String → Lookup) (o : Options) :
    (ofOptions lookup o).Sound o := by
  unfold ofOptions
  cases o.code with
  | some code => exact (sound_idle o).start rfl _ _
  | none =>
      cases o.path with
      | none => exact sound_idle o
      | some path =>
          dsimp only
          cases (lookup (String.ofList (programPath path.toList))).text _ with
          | ok text => exact (sound_idle o).start rfl _ _
          | error fault =>
              exact sound_of_closed rfl (sound_idle o).machine (Screen.midLine_report _ _ _)
                (by simp)

theorem Sound.turn (h : s.Sound o) (ht : s.Turns draws strokes next) : next.Sound o := by
  have hexecute := h.machine.execute draws budget
  cases ht with
  | stopped ha he =>
      rw [he] at hexecute
      exact ⟨h.options, hexecute.1, fun _ => midLine_concludeStrokes _ _,
        fun _ => (hexecute.2 rfl).running⟩
  | running ha he | notice ha he =>
      rw [he] at hexecute
      exact sound_of_driving h.options hexecute.1 ha
  | asks ha he =>
      rw [he] at hexecute
      exact sound_of_closed h.options hexecute.1 s.screen.midLine_finishLine (by simp)
  | answers line ha => exact sound_of_driving h.options (h.machine.enter line) rfl
  | interrupts ha => exact sound_of_driving h.options h.machine.interrupt rfl
  | starts source text ha => exact h.start ha source text
  | stays => exact h
  | ends ha => exact sound_of_closed h.options h.machine (h.closed (by simp [ha])) (by simp)
  | fails ha =>
      have hne : s.activity ≠ .driving := by
        rcases ha with ha | ha <;> simp [ha]
      exact sound_of_closed h.options h.machine (h.closed hne) (by simp [fail])

theorem Sound.run (h : s.Sound o) (draws : Draws) (turns : ℕ) (unread : List UInt8) :
    (run draws turns s unread).1.Sound o := by
  induction turns generalizing s unread with
  | zero => exact h
  | succ turns ih =>
      rw [Shell.run]
      exact ih (h.turn (s.turns draws unread)) _

/-! ### Runs of programs -/

/-- The shell is running a program. -/
def isEngaged (s : Shell) : Bool := s.activity == .driving || s.activity == .answering

/-- What a run has written so far, and the shell that it has come to. -/
structure Progress (strokes : List Stroke) (s : Shell) : Prop where
  /-- No error was reported; or there was one, and the run is over as soon as the shell goes on. -/
  told : (s.success = true ∧ ∀ x ∈ strokes, x.isError = false) ∨
    (s.success = false ∧ strokes.countP Stroke.isError = 1 ∧ Stroke.ErrorsLast strokes ∧
      s.machine.Rests ∧ s.activity ≠ .answering)
  /-- The run goes on, or its input was no text, or it has come to its end. -/
  goesOn : s.isEngaged = true ∨ s.complaint ≠ "" ∨ s.activity = s.afterRun

theorem progress_start (s : Shell) (source text : String) :
    Progress (s.startStrokes source text) (s.start source text) := by
  rw [start_eq]
  exact ⟨.inl ⟨rfl, fun _ => isError_of_mem_startStrokes⟩, .inl rfl⟩

/-- A turn of a run that has not failed. -/
theorem Progress.turn_of_success {more : List Stroke} (hsound : s.Sound o)
    (hnone : ∀ x ∈ strokes, x.isError = false) (hs : s.success = true)
    (he : s.isEngaged = true) (ht : s.Turns draws more next) :
    Progress (strokes ++ more) next := by
  have happend : (∀ x ∈ more, x.isError = false) → ∀ x ∈ strokes ++ more, x.isError = false := by
    intro hmore x hx
    exact (List.mem_append.1 hx).elim (hnone x) (hmore x)
  have hnil : ∀ x ∈ ([] : List Stroke), x.isError = false := by simp
  cases ht with
  | stopped =>
      refine ⟨.inl ⟨hs, happend fun x hx => ?_⟩, .inr (.inr rfl)⟩
      exact Stroke.isError_of_isClosing (isClosing_of_mem_concludeStrokes hx)
  | running => exact ⟨.inl ⟨hs, happend hnil⟩, .inl he⟩
  | asks => exact ⟨.inl ⟨hs, happend (by simp [Stroke.isError])⟩, .inl rfl⟩
  | @notice m n ha hexec =>
      refine ⟨?_, .inl he⟩
      cases hn : n.isFault with
      | false =>
          refine .inl ⟨by simp [hs], happend fun x hx => ?_⟩
          exact isError_of_mem_notifyStrokes hn hx
      | true =>
          match n with
          | .fault f =>
              have hexecute := hsound.machine.execute draws budget
              rw [hexec] at hexecute
              obtain ⟨hcount, hlast⟩ :=
                Stroke.errorsLast_append_error (e := .report .error f.message) hnone rfl
              exact .inr ⟨by simp, hcount, hlast, hexecute.2 rfl, by simp [ha]⟩
  | answers | interrupts => exact ⟨.inl ⟨hs, happend hnil⟩, .inl rfl⟩
  | fails => exact ⟨.inl ⟨hs, happend hnil⟩, .inr (.inl (by simp [fail]))⟩
  | starts source text ha => simp [isEngaged, ha] at he
  | stays hd ha => simp [isEngaged, hd, ha] at he
  | ends ha => simp [isEngaged, ha] at he

/-- A turn after an error ends the run. -/
theorem Progress.turn_of_failure {more : List Stroke}
    (hcount : strokes.countP Stroke.isError = 1) (hlast : Stroke.ErrorsLast strokes)
    (hrests : s.machine.Rests) (hs : s.success = false) (ha : s.activity = .driving)
    (ht : s.Turns draws more next) : Progress (strokes ++ more) next := by
  have hstopped : s.machine.execute draws budget = (.stopped, s.machine) := hrests.execute_eq
  cases ht with
  | stopped _ hexec =>
      obtain ⟨hsame, hlast'⟩ := hlast.append_closing fun _ => isClosing_of_mem_concludeStrokes
      obtain ⟨_, rfl⟩ := Prod.mk.inj (hstopped.symm.trans hexec)
      refine ⟨.inr ⟨hs, hsame.trans hcount, hlast', hrests, ?_⟩, .inr (.inr rfl)⟩
      unfold afterRun
      split <;> simp
  | running _ hexec | asks _ hexec | notice _ hexec =>
      have := congrArg Prod.fst (hstopped.symm.trans hexec)
      contradiction
  | answers _ ha' | interrupts ha' | starts _ _ ha' | ends ha' => simp [ha] at ha'
  | stays hd => exact absurd ha hd
  | fails ha' => simp [ha] at ha'

theorem Progress.turn {more : List Stroke} (h : Progress strokes s) (hsound : s.Sound o)
    (he : s.isEngaged = true) (ht : s.Turns draws more next) : Progress (strokes ++ more) next := by
  rcases h.told with ⟨hs, hnone⟩ | ⟨hs, hcount, hlast, hrests, hne⟩
  · exact turn_of_success hsound hnone hs he ht
  · have ha : s.activity = .driving := by simpa [isEngaged, hne] using he
    exact turn_of_failure hcount hlast hrests hs ha ht

theorem Progress.run (h : Progress strokes s) (hsound : s.Sound o) {turns : ℕ}
    {unread : List UInt8} (he : ∀ k < turns, (run draws k s unread).1.isEngaged = true) :
    Progress (strokes ++ runStrokes draws turns s unread) (run draws turns s unread).1 := by
  induction turns generalizing s strokes unread with
  | zero =>
      rw [runStrokes, List.append_nil]
      exact h
  | succ turns ih =>
      have ht := s.turns draws unread
      rw [runStrokes, ← List.append_assoc, Shell.run]
      refine ih (h.turn hsound (he 0 (by omega)) ht) (hsound.turn ht) fun k hk => ?_
      exact he (k + 1) (by omega)

/-- A run is over after some turns, and all its input was a text. -/
structure Completes (draws : Draws) (s : Shell) (unread : List UInt8) (turns : ℕ) : Prop where
  engaged : ∀ k < turns, (run draws k s unread).1.isEngaged = true
  ended : (run draws turns s unread).1.isEngaged = false
  complaint : (run draws turns s unread).1.complaint = ""

/-- The strokes of a run of a program, with the shell that it leaves. -/
structure ReportsOnce (o : Options) (strokes : List Stroke) (after : Shell) : Prop where
  /-- At most one error is reported. -/
  once : strokes.countP Stroke.isError ≤ 1
  /-- After it, a line is ended or the memories are reported. -/
  last : Stroke.ErrorsLast strokes
  /-- The run fails if and only if it has reported an error. -/
  failed_iff : after.success = false ↔ ∃ x ∈ strokes, x.isError = true
  /-- The exit status of a program on the command line tells if there was an error. -/
  status : o.code.isSome ∨ o.path.isSome →
    after.status? = some (if strokes.any Stroke.isError then 1 else 0)

theorem Progress.reportsOnce (h : Progress strokes s) (hoptions : s.options = o)
    (hover : s.isEngaged = false) (hcomplaint : s.complaint = "") : ReportsOnce o strokes s := by
  have hafter : s.activity = s.afterRun := by
    rcases h.goesOn with he | hc | ha
    · rw [hover] at he
      contradiction
    · exact absurd hcomplaint hc
    · exact ha
  have hstatus : o.code.isSome ∨ o.path.isSome →
      s.status? = some (if s.success then 0 else 1) := by
    intro ho
    have hnot : (o.code.isNone && o.path.isNone) = false := by
      rcases ho with ho | ho <;> simp [Option.isNone_eq_false_iff.2 ho]
    unfold status?
    rw [hafter, afterRun, hoptions, hnot]
    rfl
  rcases h.told with ⟨hs, hnone⟩ | ⟨hs, hcount, hlast, _⟩
  · have hany : strokes.any Stroke.isError = false := by
      rw [List.any_eq_false]
      intro x hx
      simp [hnone x hx]
    refine ⟨?_, Stroke.errorsLast_of_no_error hnone, ?_, ?_⟩
    · rw [Stroke.countP_isError_eq_zero hnone]
      omega
    · rw [hs]
      refine ⟨fun h => absurd h (by decide), ?_⟩
      rintro ⟨x, hx, hxe⟩
      rw [hnone x hx] at hxe
      contradiction
    · intro ho
      rw [hstatus ho, hs, hany]
      rfl
  · obtain ⟨x, hx, hxe⟩ : ∃ x ∈ strokes, x.isError = true :=
      List.countP_pos_iff.1 (by omega)
    have hany : strokes.any Stroke.isError = true := List.any_eq_true.2 ⟨x, hx, hxe⟩
    refine ⟨by omega, hlast, ⟨fun _ => ⟨x, hx, hxe⟩, fun _ => hs⟩, ?_⟩
    intro ho
    rw [hstatus ho, hs, hany]
    rfl

/-! ### The discipline -/

/-- No program runs in the shell, and one can be started. -/
inductive BetweenRuns (lookup : String → Lookup) (o : Options) (draws : Draws)
    (input : List UInt8) : Shell → Prop
  /-- The shell has not run anything. -/
  | idle : BetweenRuns lookup o draws input (idle o)
  /-- The shell has come to ask for the next program. -/
  | prompting (turns : ℕ) : (run draws turns (ofOptions lookup o) input).1.activity = .prompting →
      BetweenRuns lookup o draws input (run draws turns (ofOptions lookup o) input).1

theorem BetweenRuns.sound {lookup : String → Lookup} {input : List UInt8}
    (h : BetweenRuns lookup o draws input s) : s.Sound o ∧ s.activity = .prompting := by
  cases h with
  | idle => exact ⟨sound_idle o, rfl⟩
  | prompting turns ha => exact ⟨(sound_ofOptions lookup o).run draws turns input, ha⟩

/-- How a shell with the options `o` writes. -/
structure Disciplined (lookup : String → Lookup) (o : Options) (draws : Draws)
    (input : List UInt8) : Prop where
  /-- The screen is what the strokes have drawn. -/
  screen : ∀ turns, (run draws turns (ofOptions lookup o) input).1.screen =
    Screen.drawAll {} (transcript lookup o draws input turns)
  /-- At any time a line is open if and only if something is written and does not end with a line
  feed. -/
  midLine_iff : ∀ turns before, before <+: transcript lookup o draws input turns →
    ((Screen.drawAll {} before).midLine = true ↔ (Screen.drawAll {} before).text ≠ "" ∧
      (Screen.drawAll {} before).text.toList.getLast? ≠ some '\n')
  /-- Every report begins a line: what is written before it, with the end of an open line, is at
  the start of a line. -/
  reports : ∀ turns before level text,
    before ++ [.report level text] <+: transcript lookup o draws input turns →
    ∃ written, AtLineStart written ∧
      (written = (Screen.drawAll {} before).text ∨
        written = (Screen.drawAll {} before).text ++ "\n") ∧
      (Screen.drawAll {} (before ++ [.report level text])).text =
        written ++ level.label ++ text ++ "\n"
  /-- When the shell has ended, no line is open. -/
  ends : ∀ turns, (run draws turns (ofOptions lookup o) input).1.status?.isSome →
    AtLineStart (run draws turns (ofOptions lookup o) input).1.screen.text
  /-- Errors are reported once. -/
  runs : ∀ s source text unread turns, BetweenRuns lookup o draws input s →
    (s.start source text).Completes draws unread turns →
    ReportsOnce o
      (s.startStrokes source text ++ runStrokes draws turns (s.start source text) unread)
      (run draws turns (s.start source text) unread).1

/-- **Output keeps to its lines, and errors are reported once.** -/
theorem output_disciplined (lookup : String → Lookup) (o : Options) (draws : Draws)
    (input : List UInt8) : Disciplined lookup o draws input where
  screen turns := screen_run_ofOptions lookup o draws input turns
  midLine_iff _ before _ := Screen.knowsLine_new.drawAll before
  reports _ before level text _ := by
    rw [Screen.drawAll_append]
    exact (Screen.knowsLine_new.drawAll before).report level text
  ends turns hstatus := by
    have hsound := (sound_ofOptions lookup o).run draws turns input
    have hne : (run draws turns (ofOptions lookup o) input).1.activity ≠ .driving := by
      intro ha
      simp [status?, ha] at hstatus
    have hmid := hsound.closed hne
    rw [screen_run_ofOptions] at hmid ⊢
    exact (Screen.knowsLine_new.drawAll _).atLineStart hmid
  runs s source text unread turns hs hcompletes := by
    obtain ⟨hsound, ha⟩ := hs.sound
    have hstart := hsound.start ha source text
    exact ((progress_start s source text).run hstart hcompletes.engaged).reportsOnce
      (hstart.run draws turns unread).options hcompletes.ended hcompletes.complaint

/-- A program on the command line that prints a number and then comes to an unmatched bracket. -/
def failingCode : Options := { code := some "\\.]:" }

theorem completes_failingCode :
    (ofOptions (fun _ => .missing) failingCode).Completes (fun _ => 0.5) [] 3 where
  engaged k hk := by
    match k with
    | 0 | 1 | 2 => decide +kernel
  ended := by decide +kernel
  complaint := by decide +kernel

/-- The error is reported, and the exit status tells of it. -/
theorem output_disciplined_failingCode :
    (∃ x ∈ transcript (fun _ => .missing) failingCode (fun _ => 0.5) [] 3, x.isError = true) ∧
      (run (fun _ => 0.5) 3 (ofOptions (fun _ => .missing) failingCode) []).1.status? = some 1 := by
  have honce := (output_disciplined (fun _ => .missing) failingCode (fun _ => 0.5) []).runs
    (idle failingCode) "<code>" "\\.]:" [] 3 .idle completes_failingCode
  have herror := honce.failed_iff.1 (by decide +kernel)
  refine ⟨herror, (honce.status (.inl rfl)).trans ?_⟩
  rw [List.any_eq_true.2 herror]
  rfl

end Shell
end TwinTape
