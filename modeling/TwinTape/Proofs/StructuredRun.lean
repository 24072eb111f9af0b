import TwinTape.Proofs.Walks

/-! # Structured programs run with structured meaning

The machine runs a flattened code as the big-step semantics says.

* `follows_of_exec`: a machine that has come to a code with a result does what the result says.
  The induction is on the derivation.  A round of a loop leads from the opening bracket to the
  closing one, and the test there is the test of the next round, so a machine at the closing
  bracket counts as one that has come to the loop (`Arrives.back`).
* `exec_of_endsAfter`: if the run ends, the code has a result.  The induction is on the ticks that
  are left.
* A loop that tests last goes round at least once, because its opening bracket is executed at most
  once: outside of all loops, the brackets entered so far stand before the counter.

Since a run ends in one way only, both directions together are the theorem
(`structured_run_iff`). -/

namespace TwinTape

variable {draws : Draws} {P : Program} {h h₁ h₂ h' : Host} {σ σ₁ : Store}
  {out out' : List Notice} {a b n k stop : ℕ} {p : Place} {form : LoopForm} {s : Scope}
  {body : Code .inLoop}

/-! ### Brackets -/

/-- The brackets entered on the way from `h` to `h'` stand before `stop`. -/
def EntersBefore (stop : ℕ) (h h' : Host) : Prop :=
  ∀ x ∈ h'.machine.entered, x ∈ h.machine.entered ∨ x < stop

theorem EntersBefore.of_eq (he : h'.machine.entered = h.machine.entered) :
    EntersBefore stop h h' := by
  intro x hx
  rw [he] at hx
  exact .inl hx

theorem EntersBefore.mono (he : EntersBefore n h h') (hn : n ≤ stop) : EntersBefore stop h h' := by
  intro x hx
  cases he x hx with
  | inl hx => exact .inl hx
  | inr hx => exact .inr (by omega)

theorem EntersBefore.trans (he : EntersBefore stop h h₁) (he' : EntersBefore stop h₁ h₂) :
    EntersBefore stop h h₂ := by
  intro x hx
  cases he' x hx with
  | inl hx => exact he x hx
  | inr hx => exact .inr hx

/-- All brackets entered so far stand before `n`. -/
def EnteredBefore (n : ℕ) (h : Host) : Prop := ∀ x ∈ h.machine.entered, x < n

theorem EnteredBefore.step (hb : EnteredBefore n h) (he : EntersBefore stop h h')
    (hn : n ≤ stop) : EnteredBefore stop h' := by
  intro x hx
  cases he x hx with
  | inl hx => exact Nat.lt_of_lt_of_le (hb x hx) hn
  | inr hx => exact hx

/-- The machine goes through an opening bracket. -/
theorem Ready.walk_opening (draws : Draws) (hr : Ready P h a σ) (hl : LoopAt P a form s body) :
    ∃ k h', 0 < k ∧ Walks draws k h [] h' ∧
      Ready P h' (if h.machine.skips s form then a + body.size + 2 else a + 1) σ ∧
      EntersBefore (a + 1) h h' := by
  have hi : h.machine.program.instruction? h.machine.counter =
      some (.perform s (.opening form)) := by rw [hr.program, hr.counter, hl.opening]
  have ht : h.machine.program.jumps.target? h.machine.counter = some (a + 1 + body.size) := by
    rw [hr.program, hr.counter, hl.forth]
  have hs : h.machine.Steps draws (h.machine.stepOpening s form (a + 1 + body.size)) none :=
    .opening hi ht
  rw [Machine.stepOpening_eq, hr.counter, show a + 1 + body.size + 1 = a + body.size + 2 by omega]
    at hs
  obtain ⟨k, h', hk, hw, hr', he⟩ := hr.walk_quiet hl.opening hs rfl hr.phase rfl hr.store rfl
  refine ⟨k, h', hk, hw, hr', ?_⟩
  intro x hx
  rw [he] at hx
  split at hx
  · exact .inl (List.mem_of_mem_erase hx)
  · rcases List.mem_insert_iff.1 hx with rfl | hx
    · exact .inr (by omega)
    · exact .inl hx

theorem Ready.walk_closing (draws : Draws) (hr : Ready P h (a + 1 + body.size) σ)
    (hl : LoopAt P a form s body) :
    ∃ k h', 0 < k ∧ Walks draws k h [] h' ∧
      Ready P h' (if σ.isZero s then a + body.size + 2 else a + 1) σ ∧
      EntersBefore (a + 1) h h' := by
  have hi : h.machine.program.instruction? h.machine.counter =
      some (.perform s (.closing form)) := by rw [hr.program, hr.counter, hl.closing]
  have ht : h.machine.program.jumps.target? h.machine.counter = some a := by
    rw [hr.program, hr.counter, hl.back]
  have hs : h.machine.Steps draws (h.machine.stepClosing s a) none := .closing hi ht
  rw [Machine.stepClosing_eq, hr.counter, hr.isZero,
    show a + 1 + body.size + 1 = a + body.size + 2 by omega] at hs
  obtain ⟨k, h', hk, hw, hr', he⟩ := hr.walk_quiet hl.closing hs rfl hr.phase rfl hr.store rfl
  refine ⟨k, h', hk, hw, hr', ?_⟩
  intro x hx
  rw [he] at hx
  split at hx
  · exact .inl (List.mem_of_mem_erase hx)
  · exact .inl hx

/-! ### Machines that have come to a code -/

/-- A machine at `n` has come to the code at `a`: it is at the first instruction, or at the closing
bracket of the loop that the code begins with, where the next round is decided. -/
inductive Arrives (P : Program) (a : ℕ) : {p : Place} → Code p → ℕ → Prop
  | front {p : Place} {c : Code p} : Sits P a c → Arrives P a c a
  | back {p : Place} {form : LoopForm} {s : Scope} {body : Code .inLoop} {next : Code p} :
      LoopAt P a form s body → Sits P (a + body.size + 2) next →
      Arrives P a (.whileLoop s body next) (a + 1 + body.size)

theorem Arrives.plain {i : Instruction} {hi : i.bracket? = none} {next : Code p}
    (ha : Arrives P a (.plain i hi next) n) :
    n = a ∧ P.instruction? a = some i ∧ Sits P (a + 1) next := by
  cases ha with
  | front hs => exact ⟨rfl, hs.plain⟩

theorem Arrives.doWhile {next : Code .outside} (ha : Arrives P a (.doWhile s body next) n) :
    n = a ∧ LoopAt P a .testLast s body ∧ Sits P (a + body.size + 2) next := by
  cases ha with
  | front hs => exact ⟨rfl, hs.doWhile⟩

theorem Arrives.whileLoop {next : Code p} (ha : Arrives P a (.whileLoop s body next) n) :
    (∃ form, LoopAt P a form s body) ∧ Sits P (a + body.size + 2) next ∧ a ≤ n ∧
      n < a + body.size + 2 := by
  cases ha with
  | front hs => exact ⟨⟨_, hs.whileLoop.1⟩, hs.whileLoop.2, by omega, by omega⟩
  | back hl hs => exact ⟨⟨_, hl⟩, hs, by omega, by omega⟩

theorem Arrives.test (draws : Draws) {next : Code p} (ha : Arrives P a (.whileLoop s body next) n)
    (hr : Ready P h n σ) :
    ∃ k h', 0 < k ∧ Walks draws k h [] h' ∧
      Ready P h' (if σ.isZero s then a + body.size + 2 else a + 1) σ ∧
      EntersBefore (a + 1) h h' := by
  cases ha with
  | front hs =>
      have hskip : h.machine.skips s .testFirst = σ.isZero s := hr.isZero s
      rw [← hskip]
      exact hr.walk_opening draws hs.whileLoop.1
  | back hl hs => exact hr.walk_closing draws hl

/-- The first round of a loop that tests last: its bracket has not been entered before. -/
theorem Ready.walk_first (draws : Draws) (hr : Ready P h a σ) (hl : LoopAt P a .testLast s body)
    (hb : EnteredBefore a h) :
    ∃ k h', 0 < k ∧ Walks draws k h [] h' ∧ Ready P h' (a + 1) σ ∧ EntersBefore (a + 1) h h' := by
  have hnot : ¬ a ∈ h.machine.entered := fun ha => Nat.lt_irrefl a (hb a ha)
  have hskip : h.machine.skips s .testLast = false := by
    simp [Machine.skips, hr.counter, hnot]
  have hw := hr.walk_opening draws hl
  rw [hskip] at hw
  exact hw

/-! ### From the semantics to the machine -/

/-- The event that ends a run with the fault `f` of the instruction at `address`. -/
def Program.faultAt (P : Program) (address : ℕ) (f : Fault) : Fault :=
  (f.located (P.position address)).inSource P.source

/-- From `h` on, the run goes to `stop`, or ends with a fault, as the result says. -/
def Follows (draws : Draws) (P : Program) (h : Host) (stop : ℕ) (out : List Notice) :
    Result → Prop
  | .done σ => ∃ k h', Walks draws k h out h' ∧ Ready P h' stop σ ∧ EntersBefore stop h h'
  | .fault address f σ => ∃ es h', h.EndsIn draws es (.notice (.fault (P.faultAt address f))) h' ∧
      prints es = out ∧ h'.store = σ ∧ h'.machine.counter = address

theorem Walks.follows {r : Result} (hw : Walks draws k h out h₁) (he : EntersBefore stop h h₁)
    (hf : Follows draws P h₁ stop out' r) : Follows draws P h stop (out ++ out') r := by
  cases r with
  | done σ =>
      obtain ⟨k', h', hw', hr', he'⟩ := hf
      exact ⟨k + k', h', hw.trans hw', hr', he.trans he'⟩
  | fault address f σ =>
      obtain ⟨es, h', hend, rfl, hstore, hcounter⟩ := hf
      obtain ⟨es', hend', hprints⟩ := hw.endsIn hend
      exact ⟨es', h', hend', hprints, hstore, hcounter⟩

/-- A round of a loop, from one of its brackets to the closing one. -/
theorem Walks.round (hw : Walks draws k h [] h₁) (he : EntersBefore (a + 1) h h₁)
    (hf : Follows draws P h₁ (a + 1 + body.size) out (.done σ₁)) :
    ∃ k' h₂, Walks draws (k + k') h out h₂ ∧ Ready P h₂ (a + 1 + body.size) σ₁ ∧
      EntersBefore (a + 1 + body.size) h h₂ := by
  obtain ⟨k', h₂, hw', hr₂, he'⟩ := hf
  exact ⟨k', h₂, hw.trans hw', hr₂, (he.mono (by omega)).trans he'⟩

/-- A machine that has come to a code does what its result says. -/
theorem follows_of_exec {c : Code p} {r : Result} (hx : Exec draws a c σ out r)
    (hr : Ready P h n σ) (ha : Arrives P a c n) (hb : p = .outside → EnteredBefore n h) :
    Follows draws P h (a + c.size) out r := by
  induction hx generalizing h n with
  | done =>
      cases ha
      exact ⟨0, h, Walks.refl h, hr, .of_eq rfl⟩
  | @plain p a i hi next σ σ₁ out out' r hp _ ih =>
      obtain ⟨rfl, hi, hs⟩ := ha.plain
      obtain ⟨k, h₁, _, hw, hr₁, he⟩ := walks_of_performs hr hi hp
      have hb₁ : p = .outside → EnteredBefore (n + 1) h₁ := by
        intro hp
        exact (hb hp).step (.of_eq he) (by omega)
      have hf := hw.follows (.of_eq he) (ih hr₁ (.front hs) hb₁)
      rw [Code.size, show n + (next.size + 1) = n + 1 + next.size by omega]
      exact hf
  | plainFault hf =>
      obtain ⟨rfl, hi, _⟩ := ha.plain
      exact endsIn_of_fails hr hi hf
  | @leave p a s body next σ out r hz _ ih =>
      obtain ⟨_, hs, hn, _⟩ := ha.whileLoop
      obtain ⟨k, h₁, _, hw, hr₁, he⟩ := ha.test draws hr
      rw [hz, if_pos rfl] at hr₁
      have hb₁ : p = .outside → EnteredBefore (a + body.size + 2) h₁ := by
        intro hp
        exact (hb hp).step (he.mono (by omega)) (by omega)
      have hf := hw.follows (he.mono (by omega)) (ih hr₁ (.front hs) hb₁)
      rw [Code.size, show a + (body.size + next.size + 2) = a + body.size + 2 + next.size by omega]
      exact hf
  | @round p a s body next σ σ₁ out out' r hz _ _ ihb ihn =>
      obtain ⟨⟨form, hl⟩, hs, hn, hn'⟩ := ha.whileLoop
      obtain ⟨k, h₁, _, hw, hr₁, he⟩ := ha.test draws hr
      rw [hz, if_neg (by decide)] at hr₁
      obtain ⟨k', h₂, hw₂, hr₂, he₂⟩ := hw.round he (ihb hr₁ (.front hl.body) (by simp))
      have hb₂ : p = .outside → EnteredBefore (a + 1 + body.size) h₂ := by
        intro hp
        exact (hb hp).step he₂ (by omega)
      have hend : a + 1 + body.size ≤ a + (Code.whileLoop s body next).size := by
        rw [Code.size]
        omega
      exact hw₂.follows (he₂.mono hend) (ihn hr₂ (.back hl hs) hb₂)
  | @roundFault p a b s body next σ σ₁ out f hz _ ihb =>
      obtain ⟨⟨form, hl⟩, _⟩ := ha.whileLoop
      obtain ⟨k, h₁, _, hw, hr₁, he⟩ := ha.test draws hr
      rw [hz, if_neg (by decide)] at hr₁
      have hend : a + 1 ≤ a + (Code.whileLoop s body next).size := by
        rw [Code.size]
        omega
      exact hw.follows (he.mono hend) (ihb hr₁ (.front hl.body) (by simp))
  | @first a s body next σ σ₁ out out' r _ _ ihb ihn =>
      obtain ⟨rfl, hl, hs⟩ := ha.doWhile
      obtain ⟨k, h₁, _, hw, hr₁, he⟩ := hr.walk_first draws hl (hb rfl)
      obtain ⟨k', h₂, hw₂, hr₂, he₂⟩ := hw.round he (ihb hr₁ (.front hl.body) (by simp))
      have hb₂ : EnteredBefore (n + 1 + body.size) h₂ := (hb rfl).step he₂ (by omega)
      have hend : n + 1 + body.size ≤ n + (Code.doWhile s body next).size := by
        rw [Code.size]
        omega
      exact hw₂.follows (he₂.mono hend) (ihn hr₂ (.back hl hs) fun _ => hb₂)
  | @firstFault a b s body next σ σ₁ out f _ ihb =>
      obtain ⟨rfl, hl, _⟩ := ha.doWhile
      obtain ⟨k, h₁, _, hw, hr₁, he⟩ := hr.walk_first draws hl (hb rfl)
      have hend : n + 1 ≤ n + (Code.doWhile s body next).size := by
        rw [Code.size]
        omega
      exact hw.follows (he.mono hend) (ihb hr₁ (.front hl.body) (by simp))

/-! ### From the machine to the semantics -/

/-- The run ends after `n` ticks. -/
def EndsAfter (draws : Draws) (n : ℕ) (h : Host) : Prop :=
  ∃ es e h₁ h₂, h.ticks draws n = (es, h₁) ∧ h₁.tick draws = (some e, h₂) ∧ e.isFinal ∧
    ∀ x ∈ es, ¬ x.isFinal

theorem Walks.endsAfter (hw : Walks draws k h out h₁) (hn : EndsAfter draws n h) :
    ∃ n', n = k + n' ∧ EndsAfter draws n' h₁ := by
  obtain ⟨es, hk, _, hes⟩ := hw
  obtain ⟨es', e, h₂, h₃, hn, ht, he, hes'⟩ := hn
  have hkn : k ≤ n := by
    by_contra hlt
    obtain ⟨d, rfl⟩ : ∃ d, k = n + (d + 1) := ⟨k - n - 1, by omega⟩
    rw [Host.ticks_tell hn ht d] at hk
    cases hk
    exact hes e (by simp) he
  obtain ⟨n', rfl⟩ := Nat.exists_eq_add_of_le hkn
  rw [Host.ticks_add hk] at hn
  cases hn
  refine ⟨n', rfl, _, e, _, h₃, rfl, ht, he, ?_⟩
  intro x hx
  exact hes' x (by simp [hx])

/-- If the run of a machine that has come to a code ends, then the code has a result. -/
theorem exec_of_endsAfter {c : Code p} {N : ℕ} (hN : EndsAfter draws N h) (hr : Ready P h n σ)
    (ha : Arrives P a c n) (hb : p = .outside → EnteredBefore n h) :
    ∃ out r, Exec draws a c σ out r := by
  induction N using Nat.strong_induction_on generalizing p c h n σ a with
  | _ N ih =>
      cases c with
      | done => exact ⟨_, _, .done⟩
      | plain i hi next =>
          obtain ⟨rfl, hP, hs⟩ := ha.plain
          rcases performs_or_fails draws hi σ with ⟨out, σ₁, hp⟩ | ⟨f, σ₁, hf⟩ |
            ⟨s, medium, rfl, hl⟩
          · obtain ⟨k, h₁, hk, hw, hr₁, he⟩ := walks_of_performs hr hP hp
            obtain ⟨N', rfl, hN'⟩ := hw.endsAfter hN
            have hb₁ : p = .outside → EnteredBefore (n + 1) h₁ := by
              intro hp
              exact (hb hp).step (.of_eq he) (by omega)
            obtain ⟨out', r, hx⟩ := ih N' (by omega) hN' hr₁ (.front hs) hb₁
            exact ⟨_, _, .plain hp hx⟩
          · exact ⟨_, _, .plainFault hf⟩
          · obtain ⟨es, e, h₁, h₂, hn, ht, he, hes⟩ := hN
            exact absurd ⟨N, h₁, hn, ht, he, hes⟩ (not_endsIn_of_starved hr hP hl)
      | whileLoop s body next =>
          obtain ⟨⟨form, hl⟩, hs, hn, hn'⟩ := ha.whileLoop
          obtain ⟨k, h₁, hk, hw, hr₁, he⟩ := ha.test draws hr
          obtain ⟨N', rfl, hN'⟩ := hw.endsAfter hN
          cases hz : σ.isZero s with
          | true =>
              rw [hz, if_pos rfl] at hr₁
              have hb₁ : p = .outside → EnteredBefore (a + body.size + 2) h₁ := by
                intro hp
                exact (hb hp).step (he.mono (by omega)) (by omega)
              obtain ⟨out, r, hx⟩ := ih N' (by omega) hN' hr₁ (.front hs) hb₁
              exact ⟨_, _, .leave hz hx⟩
          | false =>
              rw [hz, if_neg (by decide)] at hr₁
              obtain ⟨out, r, hx⟩ := ih N' (by omega) hN' hr₁ (.front hl.body) (by simp)
              cases r with
              | fault b f σ₁ => exact ⟨_, _, .roundFault hz hx⟩
              | done σ₁ =>
                  obtain ⟨k', h₂, hw₂, hr₂, he₂⟩ :=
                    hw.round he (follows_of_exec hx hr₁ (.front hl.body) (by simp))
                  obtain ⟨N'', hN₂, hN''⟩ := hw₂.endsAfter hN
                  have hb₂ : p = .outside → EnteredBefore (a + 1 + body.size) h₂ := by
                    intro hp
                    exact (hb hp).step he₂ (by omega)
                  obtain ⟨out', r, hx'⟩ := ih N'' (by omega) hN'' hr₂ (.back hl hs) hb₂
                  exact ⟨_, _, .round hz hx hx'⟩
      | doWhile s body next =>
          obtain ⟨rfl, hl, hs⟩ := ha.doWhile
          obtain ⟨k, h₁, hk, hw, hr₁, he⟩ := hr.walk_first draws hl (hb rfl)
          obtain ⟨N', rfl, hN'⟩ := hw.endsAfter hN
          obtain ⟨out, r, hx⟩ := ih N' (by omega) hN' hr₁ (.front hl.body) (by simp)
          cases r with
          | fault b f σ₁ => exact ⟨_, _, .firstFault hx⟩
          | done σ₁ =>
              obtain ⟨k', h₂, hw₂, hr₂, he₂⟩ :=
                hw.round he (follows_of_exec hx hr₁ (.front hl.body) (by simp))
              obtain ⟨N'', hN₂, hN''⟩ := hw₂.endsAfter hN
              have hb₂ : EnteredBefore (n + 1 + body.size) h₂ := (hb rfl).step he₂ (by omega)
              obtain ⟨out', r, hx'⟩ := ih N'' (by omega) hN'' hr₂ (.back hl hs) fun _ => hb₂
              exact ⟨_, _, .first hx hx'⟩

/-! ### Whole runs -/

/-- The result says how a run ended: with the event `e`, and as the host is now. -/
def Result.Describes (P : Program) (e : Event) (h : Host) : Result → Prop
  | .done σ => e = .stopped ∧ h.store = σ
  | .fault address f σ =>
    e = .notice (.fault (P.faultAt address f)) ∧ h.store = σ ∧ h.machine.counter = address

theorem Ready.endsIn_stopped (hr : Ready P h P.size σ) :
    h.EndsIn draws [] .stopped ⟨h.machine.stop, h.lines⟩ := by
  have ht : h.machine.tick draws = (some .stopped, h.machine.stop) := by
    rw [hr.active.tick_eq, if_pos (by rw [hr.program, hr.counter])]
  refine ⟨0, h, rfl, ?_, rfl, by simp⟩
  simp [Host.tick, ht, Host.receive]

section whole
variable {c : Code .outside} {m : Machine} {lines : List (List Char)} {es : List Event}
  {e : Event}

theorem ready_load (P : Program) (m : Machine) (lines : List (List Char)) :
    Ready P ⟨m.load P, lines⟩ 0 ⟨m.global, {}, lines, m.drawn⟩ := ⟨rfl, rfl, rfl, rfl, rfl, rfl⟩

theorem enteredBefore_load (P : Program) (m : Machine) (lines : List (List Char)) :
    EnteredBefore 0 ⟨m.load P, lines⟩ := by
  intro x hx
  exact absurd hx List.not_mem_nil

theorem arrives_of_instructions (hP : P.instructions = c.flatten) : Arrives P 0 c 0 :=
  .front ⟨[], [], by simp [hP], rfl⟩

/-- A code with a result makes the run end as the result says. -/
theorem endsIn_of_exec {r : Result} (hP : P.instructions = c.flatten)
    (hx : Exec draws 0 c ⟨m.global, {}, lines, m.drawn⟩ out r) :
    ∃ es e h', Host.EndsIn draws ⟨m.load P, lines⟩ es e h' ∧ prints es = out ∧
      r.Describes P e h' := by
  have hf := follows_of_exec hx (ready_load P m lines) (arrives_of_instructions hP)
    fun _ => enteredBefore_load P m lines
  have hsize : 0 + c.size = P.size := by
    rw [← Code.length_flatten, ← hP, Nat.zero_add, Program.size, Program.instructions,
      List.length_map]
  rw [hsize] at hf
  cases r with
  | done σ =>
      obtain ⟨k, h₁, hw, hr, _⟩ := hf
      obtain ⟨es, hend, hprints⟩ := hw.endsIn hr.endsIn_stopped
      exact ⟨es, _, _, hend, by rw [hprints, prints_nil, List.append_nil], rfl, hr.store⟩
  | fault address f σ =>
      obtain ⟨es, h', hend, hprints, hstore, hcounter⟩ := hf
      exact ⟨es, _, h', hend, hprints, rfl, hstore, hcounter⟩

/-- A run that ends does so as a result of the code says. -/
theorem exec_of_endsIn (hP : P.instructions = c.flatten)
    (hend : Host.EndsIn draws ⟨m.load P, lines⟩ es e h') :
    ∃ r, Exec draws 0 c ⟨m.global, {}, lines, m.drawn⟩ (prints es) r ∧ r.Describes P e h' := by
  have hN : ∃ N, EndsAfter draws N ⟨m.load P, lines⟩ := by
    obtain ⟨N, h₁, hn, ht, he, hes⟩ := hend
    exact ⟨N, es, e, h₁, h', hn, ht, he, hes⟩
  obtain ⟨N, hN⟩ := hN
  obtain ⟨out, r, hx⟩ := exec_of_endsAfter hN (ready_load P m lines) (arrives_of_instructions hP)
    fun _ => enteredBefore_load P m lines
  obtain ⟨es', e', h'', hend', rfl, hdesc⟩ := endsIn_of_exec hP hx
  obtain ⟨rfl, rfl, rfl⟩ := hend.unique hend'
  exact ⟨r, hx, hdesc⟩

end whole

theorem exists_ends_of_final {budgets : ℕ → ℕ} {e : Event}
    (he : e ∈ (h.drive draws budgets n).1) (hfin : e.isFinal) :
    ∃ es e' h', h.Ends draws budgets es e' h' := by
  induction n generalizing h budgets with
  | zero => simp [Host.drive] at he
  | succ n ih =>
      by_cases hfirst : (h.call draws (budgets 0)).1.isFinal
      · exact ⟨[], _, _, 1, rfl, hfirst, by simp⟩
      · have hrest : e ∈ (Host.drive draws (fun i => budgets (i + 1)) n
            (h.call draws (budgets 0)).2).1 := by
          rcases List.mem_cons.1 he with rfl | hrest
          · exact absurd hfin hfirst
          · exact hrest
        obtain ⟨es, e', h', k, hk, hfin', hes⟩ := ih hrest
        refine ⟨(h.call draws (budgets 0)).1 :: es, e', h', k + 1, ?_, hfin', ?_⟩
        · simp [Host.drive, hk]
        · exact List.forall_mem_cons.2 ⟨hfirst, hes⟩

/-- **Structured programs run with structured meaning.**  Whatever the budgets, the lines and the
random numbers are, a drive of the program of a code stops with a store, or ends with the fault of
an instruction, just if the code has this result; if the code has no result, no event of the drive
ends it. -/
theorem structured_run_iff (P : Program) (c : Code .outside) (hP : P.instructions = c.flatten)
    (draws : Draws) (m : Machine) (lines : List (List Char)) (budgets : ℕ → ℕ)
    (hb : ∀ i, 0 < budgets i) :
    (∀ out σ,
      (∃ es h, Host.Ends draws budgets ⟨m.load P, lines⟩ es .stopped h ∧ prints es = out ∧
        h.store = σ) ↔
      Exec draws 0 c ⟨m.global, {}, lines, m.drawn⟩ out (.done σ)) ∧
    (∀ out address fault σ,
      (∃ es h, Host.Ends draws budgets ⟨m.load P, lines⟩ es (.notice (.fault fault)) h ∧
        prints es = out ∧ h.store = σ ∧ h.machine.counter = address) ↔
      ∃ f, fault = P.faultAt address f ∧
        Exec draws 0 c ⟨m.global, {}, lines, m.drawn⟩ out (.fault address f σ)) ∧
    ((¬ ∃ out r, Exec draws 0 c ⟨m.global, {}, lines, m.drawn⟩ out r) →
      ∀ n, ∀ e ∈ (Host.drive draws budgets n ⟨m.load P, lines⟩).1, ¬ e.isFinal) := by
  have hto : ∀ {es e h}, Host.Ends draws budgets ⟨m.load P, lines⟩ es e h →
      ∃ r, Exec draws 0 c ⟨m.global, {}, lines, m.drawn⟩ (prints es) r ∧ r.Describes P e h := by
    intro es e h hend
    rw [← prints_told]
    exact exec_of_endsIn hP ((Host.ends_iff_endsIn hb).1 ⟨es, rfl, hend⟩)
  have hfrom : ∀ {out r}, Exec draws 0 c ⟨m.global, {}, lines, m.drawn⟩ out r →
      ∃ es e h, Host.Ends draws budgets ⟨m.load P, lines⟩ es e h ∧ prints es = out ∧
        r.Describes P e h := by
    intro out r hx
    obtain ⟨es, e, h, hend, rfl, hdesc⟩ := endsIn_of_exec hP hx
    obtain ⟨xs, rfl, hends⟩ := (Host.ends_iff_endsIn hb).2 hend
    exact ⟨xs, e, h, hends, (prints_told xs).symm, hdesc⟩
  refine ⟨fun out σ => ⟨?_, ?_⟩, fun out address fault σ => ⟨?_, ?_⟩, ?_⟩
  · rintro ⟨es, h, hend, rfl, rfl⟩
    obtain ⟨r, hx, hdesc⟩ := hto hend
    cases r with
    | done σ => rwa [hdesc.2]
    | fault address f σ => simp [Result.Describes] at hdesc
  · intro hx
    obtain ⟨es, e, h, hend, hprints, rfl, hstore⟩ := hfrom hx
    exact ⟨es, h, hend, hprints, hstore⟩
  · rintro ⟨es, h, hend, rfl, rfl, rfl⟩
    obtain ⟨r, hx, hdesc⟩ := hto hend
    cases r with
    | done σ => simp [Result.Describes] at hdesc
    | fault address f σ =>
        obtain ⟨he, rfl, rfl⟩ := hdesc
        cases he
        exact ⟨f, rfl, hx⟩
  · rintro ⟨f, rfl, hx⟩
    obtain ⟨es, e, h, hend, hprints, rfl, hstore, hcounter⟩ := hfrom hx
    exact ⟨es, h, hend, hprints, hstore, hcounter⟩
  · intro hno n e he hfin
    obtain ⟨es, e', h, hend⟩ := exists_ends_of_final he hfin
    obtain ⟨r, hx, _⟩ := hto hend
    exact hno ⟨_, r, hx⟩

/-- A loop that tests last around a move to the left and a request for a character. -/
def moveThenAsk : Program := .ofCode "demo" [
  ⟨.perform .local (.opening .testLast), ⟨1, 1⟩⟩,
  ⟨.act .local .once .moveLeft, ⟨1, 4⟩⟩,
  ⟨.perform .global (.input .character), ⟨1, 6⟩⟩,
  ⟨.perform .local (.closing .testLast), ⟨1, 7⟩⟩]

/-- On an empty line the program is warned, because the cursor falls off the tape, and then the
missing character is a fault of the third instruction. -/
theorem structured_run_empty_line :
    ∃ es h, Host.Ends (fun _ => 0.5) (fun i => i + 1) ⟨Machine.load {} moveThenAsk, [['\n']]⟩
      es (.notice (.fault ⟨.invalidInput, some ⟨1, 6⟩, some "demo", "EMPTY LINE"⟩)) h ∧
      prints es = [.warning .tooLeft] ∧
      h.store = ⟨{}, { first := ⟨[], 0.0, [0.0]⟩ }, [], 0⟩ ∧ h.machine.counter = 2 := by
  have hrun := structured_run_iff moveThenAsk
    (.doWhile .local (.plain (.act .local .once .moveLeft) rfl
      (.plain (.perform .global (.input .character)) rfl .done)) .done)
    rfl (fun _ => 0.5) {} [['\n']] (fun i => i + 1) (fun i => Nat.succ_pos i)
  have hmove : Performs (fun _ => 0.5) (.act .local .once .moveLeft) ⟨{}, {}, [['\n']], 0⟩
      [.warning .tooLeft] ⟨{}, { first := ⟨[], 0.0, [0.0]⟩ }, [['\n']], 0⟩ :=
    @Performs.act _ _ .local .once .moveLeft .moveLeft 1 _ true rfl rfl
  have hask : Fails (.perform .global (.input .character))
      ⟨{}, { first := ⟨[], 0.0, [0.0]⟩ }, [['\n']], 0⟩ .emptyLine
      ⟨{}, { first := ⟨[], 0.0, [0.0]⟩ }, [], 0⟩ := .input rfl rfl
  refine (hrun.2.1 _ _ _ _).2 ⟨.emptyLine, rfl, ?_⟩
  exact .firstFault (.plain hmove (.plainFault hask))

end TwinTape
