import TwinTape.Proofs.Indifference

/-! # The brackets entered

`Machine.entered` is a memory of the past of a run: an address is in it if and only if it is that
of an opening bracket whose last execution since the program was loaded went into the body
(`Recalls`).  To say so, `History log m` goes along with the calls of a host and keeps the steps
completed since a program was last loaded.  Each step keeps the fact (`Steps.recalls`), so it holds
of every machine that a host can get and at every step of its log (`History.accounts`).

What the brackets make of it is in `Remembers`.

* A closing bracket is never among the brackets entered, so what it removes is not there.
* An opening bracket that tests last skips its loop if and only if the cell is zero and its
  execution before went into the body: not the first time, and not two times in a row.
* For an opening bracket that tests first it makes no difference.

The main statement is `entered_is_history`. -/

namespace TwinTape

/-! ### Steps of the past -/

/-- A step that was completed. -/
structure Stride where
  before : Machine
  after : Machine

namespace Stride

/-- The address of the instruction that was executed. -/
def address (t : Stride) : ℕ := t.before.counter

/-- The next instruction follows the one that was executed; after an opening bracket, this is the
first one of the body. -/
def FallsIn (t : Stride) : Prop := t.after.counter = t.address + 1

/-- The last step at an address. -/
def last? (log : List Stride) (a : ℕ) : Option Stride := log.reverse.find? (·.address == a)

/-- There was a step at the address, and the last one fell in. -/
def LastFellIn (log : List Stride) (a : ℕ) : Prop := ∃ t, last? log a = some t ∧ t.FallsIn

variable {log : List Stride} {t : Stride} {a : ℕ}

theorem address_of_last? (h : last? log a = some t) : t.address = a := by
  simpa using List.find?_some h

theorem last?_append_same (log : List Stride) (t : Stride) :
    last? (log ++ [t]) t.address = some t := by
  simp [last?]

theorem last?_append_ne (log : List Stride) (h : t.address ≠ a) :
    last? (log ++ [t]) a = last? log a := by
  simp [last?, h]

theorem lastFellIn_append_same : LastFellIn (log ++ [t]) t.address ↔ t.FallsIn := by
  simp [LastFellIn, last?_append_same]

theorem lastFellIn_append_ne (log : List Stride) (h : t.address ≠ a) :
    LastFellIn (log ++ [t]) a ↔ LastFellIn log a := by
  simp [LastFellIn, last?_append_ne log h]

theorem forall_split_append {P : List Stride → Stride → Prop}
    (hlog : ∀ before u later, log = before ++ u :: later → P before u) (ht : P log t) :
    ∀ before u later, log ++ [t] = before ++ u :: later → P before u := by
  intro before u later h
  rcases List.eq_nil_or_concat later with rfl | ⟨rest, x, rfl⟩
  · obtain ⟨rfl, hu⟩ := List.append_inj' h rfl
    cases hu
    exact ht
  · have h' : log ++ [t] = (before ++ u :: rest) ++ [x] := by simpa using h
    exact hlog before u rest (List.append_inj' h' rfl).1

end Stride

/-- The instruction at the address is an opening bracket. -/
def Program.OpensAt (p : Program) (a : ℕ) : Prop :=
  ∃ s form, p.instruction? a = some (.perform s (.opening form))

/-- The instruction at the address is a closing bracket. -/
def Program.ClosesAt (p : Program) (a : ℕ) : Prop :=
  ∃ s form, p.instruction? a = some (.perform s (.closing form))

theorem Program.not_opensAt {p : Program} {a : ℕ} {i : Instruction}
    (hi : p.instruction? a = some i) (hne : ∀ s form, i ≠ .perform s (.opening form)) :
    ¬ p.OpensAt a := by
  rintro ⟨s, form, h⟩
  rw [hi] at h
  exact hne s form (Option.some.inj h)

namespace Machine

variable {draws : Draws} {m m' next : Machine} {wait : Option Medium} {log : List Stride}

/-! ### The history of a machine -/

/-- The step that a machine completes, if it does not fail. -/
def stride? (draws : Draws) (m : Machine) : Option Stride :=
  match m.step draws with
  | .ok (next, _) => some ⟨m, next⟩
  | .error _ => none

/-- The steps completed in a call. -/
def strides (draws : Draws) (budget : ℕ) (m : Machine) : List Stride :=
  (m.executeLogged draws budget).1.filterMap (stride? draws)

/-- A host can get the machine by its calls, and these are the steps completed since a program was
last loaded. -/
inductive History : List Stride → Machine → Prop
  | new : History [] {}
  /-- A text that compiles is loaded. -/
  | start {log : List Stride} {m : Machine} {source text : String} {p : Program} :
      Program.compile source text = .ok p → History log m → History [] (m.runText source text)
  /-- Any other text is not. -/
  | refuse {log : List Stride} {m : Machine} {source text : String} {fault : Fault} :
      Program.compile source text = .error fault → History log m →
      History log (m.runText source text)
  | load {log : List Stride} {m : Machine} (program : Program) :
      History log m → History [] (m.load program)
  | execute {log : List Stride} {m : Machine} (draws : Draws) (budget : ℕ) :
      History log m → History (log ++ m.strides draws budget) (m.execute draws budget).2
  | enter {log : List Stride} {m : Machine} (line : List Char) :
      History log m → History log (m.enter line).2
  | interrupt {log : List Stride} {m : Machine} : History log m → History log m.interrupt
  | setTracing {log : List Stride} {m : Machine} (on : Bool) :
      History log m → History log (m.setTracing on)

/-- Every machine that a host can get has a history. -/
theorem reachable_iff_history : Reachable m ↔ ∃ log, History log m := by
  constructor
  · intro h
    induction h with
    | new => exact ⟨[], .new⟩
    | runText source text _ ih =>
        obtain ⟨log, hlog⟩ := ih
        cases hc : Program.compile source text with
        | ok p => exact ⟨[], .start hc hlog⟩
        | error fault => exact ⟨log, .refuse hc hlog⟩
    | load program _ ih => exact ⟨[], .load program ih.choose_spec⟩
    | execute draws budget _ ih => exact ⟨_, .execute draws budget ih.choose_spec⟩
    | enter line _ ih => exact ⟨_, .enter line ih.choose_spec⟩
    | interrupt _ ih => exact ⟨_, .interrupt ih.choose_spec⟩
    | setTracing on _ ih => exact ⟨_, .setTracing on ih.choose_spec⟩
  · rintro ⟨log, h⟩
    induction h with
    | new => exact .new
    | start _ _ ih | refuse _ _ ih => exact .runText _ _ ih
    | load program _ ih => exact .load program ih
    | execute draws budget _ ih => exact .execute draws budget ih
    | enter line _ ih => exact .enter line ih
    | interrupt _ ih => exact .interrupt ih
    | setTracing on _ ih => exact .setTracing on ih

/-! ### What a step keeps -/

/-- The brackets entered are the opening brackets whose last execution fell in. -/
structure Recalls (log : List Stride) (m : Machine) : Prop where
  nodup : m.entered.Nodup
  mem_iff : ∀ a, a ∈ m.entered ↔ m.program.OpensAt a ∧ Stride.LastFellIn log a

theorem Recalls.congr (h : Recalls log m) (hprogram : m'.program = m.program)
    (hentered : m'.entered = m.entered) : Recalls log m' := by
  refine ⟨?_, ?_⟩
  · rw [hentered]
    exact h.nodup
  · rw [hentered, hprogram]
    exact h.mem_iff

theorem Recalls.append (h : Recalls log m) (hno : ¬ m.program.OpensAt m.counter)
    (hprogram : next.program = m.program) (hentered : next.entered = m.entered) :
    Recalls (log ++ [⟨m, next⟩]) next := by
  refine ⟨by rw [hentered]; exact h.nodup, fun a => ?_⟩
  rw [hentered, hprogram, h.mem_iff]
  refine and_congr_right fun ha => ?_
  have hne : Stride.address ⟨m, next⟩ ≠ a := by
    rintro rfl
    exact hno ha
  exact (Stride.lastFellIn_append_ne log hne).symm

/-- A closing bracket is not among the brackets entered. -/
theorem Recalls.not_mem_of_closesAt (h : Recalls log m) {a : ℕ} (ha : m.program.ClosesAt a) :
    a ∉ m.entered := by
  obtain ⟨s, form, hi⟩ := ha
  intro hmem
  exact Program.not_opensAt hi (by simp) ((h.mem_iff a).1 hmem).1

/-- A closing bracket removes nothing. -/
theorem Recalls.entered_stepClosing (h : Recalls log m) (hc : m.program.ClosesAt m.counter)
    (s : Scope) (target : ℕ) : (m.stepClosing s target).entered = m.entered := by
  rw [stepClosing_eq]
  dsimp only
  rw [List.erase_of_not_mem (h.not_mem_of_closesAt hc), ite_self]

/-- The partner of an opening bracket stands behind it. -/
theorem lt_target_of_opening {p : Program} {a target : ℕ} {s : Scope} {form : LoopForm}
    (hi : p.instruction? a = some (.perform s (.opening form)))
    (ht : p.jumps.target? a = some target) : a < target := by
  rw [target?_eq, JumpTable.target?_eq_some_iff] at ht
  obtain ⟨k, he | he⟩ := ht
  · exact he.lt
  · have hc := he.closing
    rw [instruction?_eq] at hi
    simp [bracketAt, hi, Instruction.bracket?] at hc

/-- An opening bracket that is entered if and only if it falls in keeps the rest right. -/
theorem Recalls.append_opening (h : Recalls log m) (hopens : m.program.OpensAt m.counter)
    (hprogram : next.program = m.program) (hnodup : next.entered.Nodup)
    (hself : m.counter ∈ next.entered ↔ next.counter = m.counter + 1)
    (hothers : ∀ a, a ≠ m.counter → (a ∈ next.entered ↔ a ∈ m.entered)) :
    Recalls (log ++ [⟨m, next⟩]) next := by
  refine ⟨hnodup, fun a => ?_⟩
  rw [hprogram]
  by_cases ha : a = m.counter
  · subst ha
    rw [hself]
    have hlast : Stride.LastFellIn (log ++ [⟨m, next⟩]) m.counter ↔
        Stride.FallsIn ⟨m, next⟩ := Stride.lastFellIn_append_same
    rw [hlast]
    exact (and_iff_right hopens).symm
  · have hne : Stride.address ⟨m, next⟩ ≠ a := Ne.symm ha
    rw [hothers a ha, h.mem_iff, Stride.lastFellIn_append_ne log hne]

theorem Recalls.opening (h : Recalls log m) {s : Scope} {form : LoopForm} {target : ℕ}
    (hi : m.program.instruction? m.counter = some (.perform s (.opening form)))
    (ht : m.program.jumps.target? m.counter = some target) :
    Recalls (log ++ [⟨m, m.stepOpening s form target⟩]) (m.stepOpening s form target) := by
  have hlt := lt_target_of_opening hi ht
  rw [stepOpening_eq]
  by_cases hskip : m.skips s form = true
  · simp only [hskip, if_true]
    refine h.append_opening ⟨s, form, hi⟩ rfl (h.nodup.erase _) ?_ ?_
    · refine iff_of_false h.nodup.not_mem_erase ?_
      dsimp only
      omega
    · intro a ha
      exact List.mem_erase_of_ne ha
  · simp only [hskip, if_false, Bool.false_eq_true]
    refine h.append_opening ⟨s, form, hi⟩ rfl (h.nodup.insert) ?_ ?_
    · exact iff_of_true List.mem_insert_self rfl
    · intro a ha
      exact List.mem_insert_iff.trans (or_iff_right ha)

/-- Each step keeps the brackets entered right. -/
theorem Steps.recalls (hs : Steps draws m next wait) (h : Recalls log m) :
    Recalls (log ++ [⟨m, next⟩]) next := by
  cases hs with
  | opening hi ht => exact h.opening hi ht
  | @closing s form target hi ht =>
      refine h.append (Program.not_opensAt hi (by simp)) ?_ ?_
      · simp [stepClosing_eq]
      · exact h.entered_stepClosing ⟨s, form, hi⟩ s target
  | burst hi hr =>
      refine h.append (Program.not_opensAt hi (by simp)) ?_ ?_
      · simp [repeatBurst_eq]
      · simp [repeatBurst_eq]
  | random hi | switchTape hi | output hi | input hi | ask hi | reserved hi | swap hi =>
      refine h.append (Program.not_opensAt hi (by simp)) ?_ ?_
      · simp [advance, goto, push, swapCells]
      · simp [advance, goto, push, swapCells]

/-! ### What a run keeps -/

/-- The brackets entered are right now, and they were at every step of the log. -/
structure Accounts (log : List Stride) (m : Machine) : Prop where
  now : Recalls log m
  past : ∀ before t later, log = before ++ t :: later →
    t.before.program = m.program ∧ Recalls before t.before ∧
      ∃ draws wait, t.before.Steps draws t.after wait

theorem Accounts.congr (h : Accounts log m) (hprogram : m'.program = m.program)
    (hentered : m'.entered = m.entered) : Accounts log m' := by
  refine ⟨h.now.congr hprogram hentered, ?_⟩
  rw [hprogram]
  exact h.past

theorem accounts_of_entered_nil (hentered : m.entered = []) : Accounts [] m := by
  refine ⟨⟨?_, ?_⟩, ?_⟩
  · rw [hentered]
    exact List.nodup_nil
  · intro a
    simp [hentered, Stride.LastFellIn, Stride.last?]
  · intro before t later h
    simp at h

theorem Accounts.step (h : Accounts log m) (hs : Steps draws m next wait) :
    Accounts (log ++ [⟨m, next⟩]) next := by
  refine ⟨hs.recalls h.now, ?_⟩
  rw [hs.frame.1]
  exact Stride.forall_split_append h.past ⟨rfl, h.now, draws, wait, hs⟩

/-- The steps of a run, one after the other. -/
theorem Accounts.run (h : Accounts log m) (draws : Draws) (budget : ℕ) :
    Accounts (log ++ (m.runLogged draws budget).1.filterMap (stride? draws))
      (m.runLogged draws budget).2.2 := by
  induction budget generalizing m log with
  | zero =>
      rw [runLogged, List.filterMap_nil, List.append_nil]
      exact h
  | succ budget ih =>
      rw [runLogged]
      by_cases hc : m.program.size ≤ m.counter
      · rw [if_pos hc, List.filterMap_nil, List.append_nil]
        exact h.congr rfl rfl
      · rw [if_neg hc]
        cases hstep : m.step draws with
        | error fault =>
            have hnone : m.stride? draws = none := by simp [stride?, hstep]
            simp only [List.filterMap_cons, hnone, List.filterMap_nil, List.append_nil]
            exact h.congr rfl rfl
        | ok p =>
            obtain ⟨next, wait⟩ := p
            have hsome : m.stride? draws = some ⟨m, next⟩ := by simp [stride?, hstep]
            have hnext := h.step (step_eq_ok_iff.1 hstep)
            cases wait with
            | some medium => simpa [hsome] using hnext
            | none =>
                dsimp only
                split
                · simp only [List.filterMap_cons, hsome, List.filterMap_nil]
                  exact hnext.congr rfl rfl
                · have hall := ih hnext
                  rwa [List.append_assoc, List.singleton_append, ← List.filterMap_cons_some hsome]
                    at hall

theorem Accounts.execute (h : Accounts log m) (draws : Draws) (budget : ℕ) :
    Accounts (log ++ m.strides draws budget) (m.execute draws budget).2 := by
  rw [← executeLogged_val]
  unfold strides executeLogged
  split
  · rw [List.filterMap_nil, List.append_nil]
    exact h.congr rfl rfl
  · split
    · rw [List.filterMap_nil, List.append_nil]
      exact h.congr rfl rfl
    · split
      · exact h.run draws budget
      · rw [List.filterMap_nil, List.append_nil]
        exact h

/-- Every machine that a host can get has the right brackets entered. -/
theorem History.accounts (h : History log m) : Accounts log m := by
  induction h with
  | new => exact accounts_of_entered_nil rfl
  | @start log m source text p hc _ _ =>
      refine accounts_of_entered_nil ?_
      unfold Machine.runText
      rw [hc]
      rfl
  | @refuse log m source text fault hc _ ih =>
      unfold Machine.runText
      rw [hc]
      exact ih.congr rfl rfl
  | load program _ _ => exact accounts_of_entered_nil rfl
  | execute draws budget _ ih => exact ih.execute draws budget
  | enter line _ ih =>
      unfold Machine.enter
      split
      · exact ih.congr rfl rfl
      · exact ih
  | interrupt _ ih =>
      unfold Machine.interrupt
      split
      · exact ih.congr rfl rfl
      · exact ih
  | setTracing on _ ih => exact ih.congr rfl rfl

/-! ### What the brackets entered say -/

theorem exists_of_step_bracket {s : Scope} {o : Operation} {go : ℕ → Machine}
    (hi : m.program.instruction? m.counter = some (.perform s o))
    (hgo : m.stepOperation draws s o = do return (← m.stepBracket go, none))
    (h : m.step draws = .ok (next, wait)) :
    ∃ target, m.program.jumps.target? m.counter = some target ∧ next = go target := by
  have hop : m.stepOperation draws s o = .ok (next, wait) := (step_eq_ok_of_instruction hi).1 h
  rw [hgo, stepBracket] at hop
  cases ht : m.program.jumps.target? m.counter with
  | none => simp [ht, bind, Except.bind] at hop
  | some target =>
      simp only [ht, bind, Except.bind, pure, Except.pure, Except.ok.injEq, Prod.mk.injEq] at hop
      exact ⟨target, rfl, hop.1.symm⟩

/-- How the opening bracket that tests last and that was executed in `t` goes by the steps before:
it goes past its loop, which ends at `target`, or it falls in. -/
structure SkipsByHistory (before : List Stride) (t : Stride) (s : Scope) (target : ℕ) : Prop where
  skips_iff : t.after.counter = target + 1 ↔
    t.before.isZero s = true ∧ Stride.LastFellIn before t.address
  skips_or_fallsIn : t.after.counter = target + 1 ∨ t.FallsIn
  /-- It falls in the first time. -/
  first : Stride.last? before t.address = none → t.FallsIn
  /-- It falls in after it went past its loop. -/
  again : ∀ u, Stride.last? before t.address = some u → u.after.counter = target + 1 → t.FallsIn

/-- A bracket that skips by what it did before does not skip at first, nor two times in a row. -/
theorem skipsByHistory_of_iff {t : Stride} {s : Scope} {target : ℕ} (hlt : t.address < target)
    (hiff : t.after.counter = target + 1 ↔
      t.before.isZero s = true ∧ Stride.LastFellIn log t.address)
    (hor : t.after.counter = target + 1 ∨ t.FallsIn) : SkipsByHistory log t s target := by
  refine ⟨hiff, hor, ?_, ?_⟩
  · intro hnone
    refine hor.resolve_left fun hskip => ?_
    obtain ⟨u, hu, _⟩ := (hiff.1 hskip).2
    rw [hnone] at hu
    contradiction
  · intro u hu hskipped
    refine hor.resolve_left fun hskip => ?_
    obtain ⟨u', hu', hfell⟩ := (hiff.1 hskip).2
    rw [hu] at hu'
    obtain rfl := Option.some.inj hu'
    have haddress := Stride.address_of_last? hu
    unfold Stride.FallsIn at hfell
    omega

theorem Recalls.skipsByHistory (h : Recalls log m) {s : Scope} {target : ℕ}
    (hi : m.program.instruction? m.counter = some (.perform s (.opening .testLast)))
    (ht : m.program.jumps.target? m.counter = some target) :
    SkipsByHistory log ⟨m, m.stepOpening s .testLast target⟩ s target := by
  have hlt := lt_target_of_opening hi ht
  have hcounter : (m.stepOpening s .testLast target).counter =
      if m.skips s .testLast then target + 1 else m.counter + 1 := by
    rw [stepOpening_eq]
  have hskips : m.skips s .testLast = true ↔
      m.isZero s = true ∧ Stride.LastFellIn log m.counter := by
    have hopens : m.program.OpensAt m.counter := ⟨s, .testLast, hi⟩
    rw [skips, Bool.and_eq_true, List.contains_iff_mem, h.mem_iff, and_iff_right hopens]
  refine skipsByHistory_of_iff hlt ?_ ?_
  · refine Iff.trans ?_ hskips
    dsimp only
    rw [hcounter]
    split
    · exact iff_of_true rfl ‹_›
    · refine iff_of_false ?_ ‹_›
      omega
  · unfold Stride.FallsIn
    dsimp only [Stride.address]
    rw [hcounter]
    split
    · exact .inl rfl
    · exact .inr rfl

/-- What the brackets entered say about the steps before, and what the brackets make of it. -/
structure Remembers (log : List Stride) (m : Machine) : Prop where
  /-- They are the opening brackets whose last execution fell in. -/
  mem_iff : ∀ a, a ∈ m.entered ↔ m.program.OpensAt a ∧ Stride.LastFellIn log a
  closing_not_mem : ∀ a, m.program.ClosesAt a → a ∉ m.entered
  /-- What a closing bracket removes is not there. -/
  closing_keeps : ∀ draws next wait, m.program.ClosesAt m.counter →
    m.step draws = .ok (next, wait) → next.entered = m.entered
  /-- For brackets that test first it does not matter if they are among them. -/
  testFirst : ∀ m', m.Alike m' → ∀ calls, (m'.performAll calls).1 = (m.performAll calls).1 ∧
    Alike (m.performAll calls).2 (m'.performAll calls).2
  /-- Brackets that test last go by them. -/
  testLast : ∀ draws next wait s,
    m.program.instruction? m.counter = some (.perform s (.opening .testLast)) →
    m.step draws = .ok (next, wait) →
    ∃ target, m.program.jumps.target? m.counter = some target ∧
      SkipsByHistory log ⟨m, next⟩ s target

theorem Recalls.remembers (h : Recalls log m) : Remembers log m where
  mem_iff := h.mem_iff
  closing_not_mem _ ha := h.not_mem_of_closesAt ha
  closing_keeps draws next wait hc hstep := by
    obtain ⟨s, form, hi⟩ := hc
    obtain ⟨target, -, rfl⟩ := exists_of_step_bracket hi rfl hstep
    exact h.entered_stepClosing ⟨s, form, hi⟩ s target
  testFirst _ halike calls := halike.performAll calls
  testLast draws next wait s hi hstep := by
    obtain ⟨target, ht, rfl⟩ := exists_of_step_bracket hi rfl hstep
    exact ⟨target, ht, h.skipsByHistory hi ht⟩

/-- **The brackets entered are the history of the opening brackets**: every machine that a host can
get has a history, and the brackets entered say what the steps since the last program was loaded
were, now and before each of these steps. -/
theorem entered_is_history (h : Reachable m) :
    (∃ log, History log m) ∧
    ∀ log, History log m →
      Remembers log m ∧
      ∀ before t later, log = before ++ t :: later →
        t.before.program = m.program ∧ Remembers before t.before ∧
          ∃ draws wait, t.before.step draws = .ok (t.after, wait) := by
  refine ⟨reachable_iff_history.1 h, fun log hlog => ?_⟩
  obtain ⟨hnow, hpast⟩ := hlog.accounts
  refine ⟨hnow.remembers, fun before t later hsplit => ?_⟩
  obtain ⟨hprogram, hrecalls, draws, wait, hs⟩ := hpast before t later hsplit
  exact ⟨hprogram, hrecalls.remembers, draws, wait, hs.step_eq⟩

/-- A loop in a loop, both testing last, when the inner one comes up again. -/
def secondRound : Machine :=
  ((Machine.load {} (.ofCode "demo"
    [⟨.act .global .once .increment, ⟨1, 1⟩⟩, ⟨.perform .global (.opening .testLast), ⟨1, 2⟩⟩,
      ⟨.perform .local (.opening .testLast), ⟨1, 3⟩⟩,
      ⟨.perform .local (.closing .testLast), ⟨1, 4⟩⟩,
      ⟨.perform .global (.closing .testLast), ⟨1, 5⟩⟩])).execute (fun _ => 0.5) 5).2

/-- The inner loop was entered, so it is skipped now. -/
theorem entered_is_history_secondRound : secondRound.counter = 2 ∧ ∀ log,
    History log secondRound → Stride.LastFellIn log 2 ∧
      ∀ next wait, secondRound.step (fun _ => 0.5) = .ok (next, wait) → next.counter = 4 := by
  have hreachable : Reachable secondRound := .execute _ 5 (.load _ .new)
  refine ⟨rfl, fun log hlog => ?_⟩
  have hremembers := ((entered_is_history hreachable).2 log hlog).1
  have hfell : Stride.LastFellIn log 2 := ((hremembers.mem_iff 2).1 (by decide)).2
  refine ⟨hfell, fun next wait hstep => ?_⟩
  obtain ⟨target, ht, hskips⟩ := hremembers.testLast _ next wait .local rfl hstep
  have htarget : secondRound.program.jumps.target? secondRound.counter = some 3 := rfl
  rw [htarget] at ht
  obtain rfl := Option.some.inj ht
  have hzero : secondRound.isZero .local = true := by decide +kernel
  exact hskips.skips_iff.2 ⟨hzero, hfell⟩

end Machine
end TwinTape
