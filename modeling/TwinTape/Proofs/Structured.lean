import TwinTape.Machine.Step
import TwinTape.Proofs.JumpTable

/-! # Structured programs

`Code` is a language of loops: plain instructions in a row, loops that test before each round
(`whileLoop`), and, outside of all other loops, loops that test after each round (`doWhile`).
`Code.flatten` writes a loop as its body between two brackets.

`Exec draws a c σ out r` is the big-step semantics: the code `c`, whose first instruction stands
at the address `a`, takes the store `σ` to the result `r` and tells `out` on the way.  There is no
program counter, no burst and no phase in it.  A store has the lines that will be read; a code
that needs a line when none is left has no result, just as one that runs for ever.

In a flattened code the brackets of a loop are partners, because the body is balanced for every
kind (`balanced_sides_flatten`), so the table of the program joins them (`loopAt_of_enclose`). -/

namespace TwinTape

/-! ### Stores -/

/-- What a program works on. -/
structure Store where
  global : Memory
  «local» : Memory
  /-- The lines that have not been read yet. -/
  lines : List (List Char)
  /-- Random numbers drawn so far. -/
  drawn : ℕ

namespace Store

/-- The memory of a scope. -/
def memory (σ : Store) : Scope → Memory
  | .global => σ.global
  | .local => σ.local

/-- Replaces the memory of a scope. -/
def setMemory (σ : Store) (s : Scope) (memory : Memory) : Store :=
  match s with
  | .global => { σ with global := memory }
  | .local => { σ with «local» := memory }

/-- The active cell of a scope is zero. -/
def isZero (σ : Store) (s : Scope) : Bool := (σ.memory s).cell == 0.0

/-- Exchanges the active cells of the two memories. -/
def swapCells (σ : Store) : Store :=
  { σ with global := σ.global.set σ.local.cell, «local» := σ.local.set σ.global.cell }

end Store

/-! ### Plain instructions -/

/-- A line without its end. -/
def lineContent (line : List Char) : List Char :=
  Text.dropEndWhile (fun c => c == '\r' || c == '\n') line

/-- What a plain instruction does to a store, and what it tells. -/
inductive Performs (draws : Draws) : Instruction → Store → List Notice → Store → Prop
  /-- The count is fixed first; one warning if the cursor fell off the left end. -/
  | act {σ : Store} {s : Scope} {times : Repeat} {a b : Action} {n : ℕ} {memory : Memory}
      {fell : Bool} :
      times.resolve? a (σ.memory s).cell = some (b, n) →
      (σ.memory s).actTimes b n false = (memory, fell) →
      Performs draws (.act s times a) σ (if fell then [.warning .tooLeft] else [])
        (σ.setMemory s memory)
  | random {σ : Store} {s : Scope} :
      Performs draws (.perform s .random) σ []
        { σ.setMemory s ((σ.memory s).set (draws σ.drawn)) with drawn := σ.drawn + 1 }
  | switchTape {σ : Store} {s : Scope} :
      Performs draws (.perform s .switchTape) σ [] (σ.setMemory s (σ.memory s).switch)
  | output {σ : Store} {s : Scope} {medium : Medium} {out : Output} :
      medium.write (σ.memory s).cell = .ok out →
      Performs draws (.perform s (.output medium)) σ [.print out] σ
  | input {σ : Store} {s : Scope} {medium : Medium} {line : List Char} {rest : List (List Char)}
      {x : Float} :
      σ.lines = line :: rest → medium.read (lineContent line) = .ok x →
      Performs draws (.perform s (.input medium)) σ []
        { σ.setMemory s ((σ.memory s).set x) with lines := rest }
  | reserved {σ : Store} {s : Scope} {what : Reserved} :
      Performs draws (.perform s (.reserved what)) σ [] σ
  | swap {σ : Store} : Performs draws .swap σ [] σ.swapCells

/-- How a plain instruction fails; a line that was read is gone. -/
inductive Fails : Instruction → Store → Fault → Store → Prop
  | act {σ : Store} {s : Scope} {times : Repeat} {a : Action} :
      times.resolve? a (σ.memory s).cell = none → Fails (.act s times a) σ .countNotFinite σ
  | output {σ : Store} {s : Scope} {medium : Medium} {f : Fault} :
      medium.write (σ.memory s).cell = .error f → Fails (.perform s (.output medium)) σ f σ
  | input {σ : Store} {s : Scope} {medium : Medium} {line : List Char} {rest : List (List Char)}
      {f : Fault} :
      σ.lines = line :: rest → medium.read (lineContent line) = .error f →
      Fails (.perform s (.input medium)) σ f { σ with lines := rest }

/-- A plain instruction performs, or fails, or needs a line when none is left. -/
theorem performs_or_fails (draws : Draws) {i : Instruction} (hi : i.bracket? = none) (σ : Store) :
    (∃ out σ₁, Performs draws i σ out σ₁) ∨ (∃ f σ₁, Fails i σ f σ₁) ∨
      ∃ s medium, i = .perform s (.input medium) ∧ σ.lines = [] := by
  cases i with
  | act s times a =>
      cases hres : times.resolve? a (σ.memory s).cell with
      | none => exact .inr (.inl ⟨_, _, .act hres⟩)
      | some p => exact .inl ⟨_, _, .act hres rfl⟩
  | swap => exact .inl ⟨_, _, .swap⟩
  | perform s o =>
      cases o with
      | random => exact .inl ⟨_, _, .random⟩
      | switchTape => exact .inl ⟨_, _, .switchTape⟩
      | reserved what => exact .inl ⟨_, _, .reserved⟩
      | output medium =>
          cases hw : medium.write (σ.memory s).cell with
          | ok out => exact .inl ⟨_, _, .output hw⟩
          | error f => exact .inr (.inl ⟨_, _, .output hw⟩)
      | input medium =>
          cases hl : σ.lines with
          | nil => exact .inr (.inr ⟨s, medium, rfl, rfl⟩)
          | cons line rest =>
              cases hx : medium.read (lineContent line) with
              | ok x => exact .inl ⟨_, _, .input hl hx⟩
              | error f => exact .inr (.inl ⟨_, _, .input hl hx⟩)
      | opening form | closing form => simp [Instruction.bracket?] at hi

/-! ### Code -/

/-- Where a code stands. -/
inductive Place where
  | outside
  | inLoop
deriving DecidableEq, Repr

/-- A row of plain instructions and loops. -/
inductive Code : Place → Type
  | done {p : Place} : Code p
  | plain {p : Place} (i : Instruction) (hi : i.bracket? = none) (next : Code p) : Code p
  | whileLoop {p : Place} (s : Scope) (body : Code .inLoop) (next : Code p) : Code p
  | doWhile (s : Scope) (body : Code .inLoop) (next : Code .outside) : Code .outside

namespace Code

/-- Number of instructions. -/
def size : {p : Place} → Code p → ℕ
  | _, done => 0
  | _, plain _ _ next => next.size + 1
  | _, whileLoop _ body next => body.size + next.size + 2
  | _, doWhile _ body next => body.size + next.size + 2

/-- The brackets of a loop around its body, and what follows. -/
def enclose (form : LoopForm) (s : Scope) (body rest : List Instruction) : List Instruction :=
  .perform s (.opening form) :: (body ++ .perform s (.closing form) :: rest)

/-- The instructions of a code. -/
def flatten : {p : Place} → Code p → List Instruction
  | _, done => []
  | _, plain i _ next => i :: next.flatten
  | _, whileLoop s body next => enclose .testFirst s body.flatten next.flatten
  | _, doWhile s body next => enclose .testLast s body.flatten next.flatten

theorem length_flatten {p : Place} (c : Code p) : c.flatten.length = c.size := by
  induction c with
  | done => rfl
  | plain i hi next ih => simp [flatten, size, ih]
  | whileLoop s body next ihb ihn => simp [flatten, enclose, size, ihb, ihn]; omega
  | doWhile s body next ihb ihn => simp [flatten, enclose, size, ihb, ihn]; omega

end Code

/-! ### Semantics -/

/-- How a code ends: with a store, or at the instruction that failed. -/
inductive Result where
  | done (σ : Store)
  | fault (address : ℕ) (f : Fault) (σ : Store)

/-- The code `c` at the address `a` takes a store to a result and tells something. -/
inductive Exec (draws : Draws) :
    {p : Place} → (a : ℕ) → Code p → Store → List Notice → Result → Prop
  | done {p : Place} {a : ℕ} {σ : Store} :
      Exec draws a (.done (p := p)) σ [] (.done σ)
  | plain {p : Place} {a : ℕ} {i : Instruction} {hi : i.bracket? = none} {next : Code p}
      {σ σ₁ : Store} {out out' : List Notice} {r : Result} :
      Performs draws i σ out σ₁ → Exec draws (a + 1) next σ₁ out' r →
      Exec draws a (.plain i hi next) σ (out ++ out') r
  | plainFault {p : Place} {a : ℕ} {i : Instruction} {hi : i.bracket? = none} {next : Code p}
      {σ σ₁ : Store} {f : Fault} :
      Fails i σ f σ₁ → Exec draws a (.plain i hi next) σ [] (.fault a f σ₁)
  /-- The cell is zero: the loop is left. -/
  | leave {p : Place} {a : ℕ} {s : Scope} {body : Code .inLoop} {next : Code p} {σ : Store}
      {out : List Notice} {r : Result} :
      σ.isZero s = true → Exec draws (a + body.size + 2) next σ out r →
      Exec draws a (.whileLoop s body next) σ out r
  /-- The cell is not zero: one round, and the test again. -/
  | round {p : Place} {a : ℕ} {s : Scope} {body : Code .inLoop} {next : Code p} {σ σ₁ : Store}
      {out out' : List Notice} {r : Result} :
      σ.isZero s = false → Exec draws (a + 1) body σ out (.done σ₁) →
      Exec draws a (.whileLoop s body next) σ₁ out' r →
      Exec draws a (.whileLoop s body next) σ (out ++ out') r
  | roundFault {p : Place} {a b : ℕ} {s : Scope} {body : Code .inLoop} {next : Code p}
      {σ σ₁ : Store} {out : List Notice} {f : Fault} :
      σ.isZero s = false → Exec draws (a + 1) body σ out (.fault b f σ₁) →
      Exec draws a (.whileLoop s body next) σ out (.fault b f σ₁)
  /-- The first round needs no test; from then on the loop is one that tests before a round. -/
  | first {a : ℕ} {s : Scope} {body : Code .inLoop} {next : Code .outside} {σ σ₁ : Store}
      {out out' : List Notice} {r : Result} :
      Exec draws (a + 1) body σ out (.done σ₁) →
      Exec draws a (.whileLoop s body next) σ₁ out' r →
      Exec draws a (.doWhile s body next) σ (out ++ out') r
  | firstFault {a b : ℕ} {s : Scope} {body : Code .inLoop} {next : Code .outside}
      {σ σ₁ : Store} {out : List Notice} {f : Fault} :
      Exec draws (a + 1) body σ out (.fault b f σ₁) →
      Exec draws a (.doWhile s body next) σ out (.fault b f σ₁)

/-! ### Brackets of a flattened code -/

theorem sides_cons_of_none {k : Loop.Kind} {i : Instruction} (hi : i.bracket? = none)
    (is : List Instruction) : sides k (i :: is) = sides k is := by
  simp [sides, sideOf, hi]

theorem sides_enclose (k : Loop.Kind) (form : LoopForm) (s : Scope) (body rest : List Instruction) :
    sides k (Code.enclose form s body rest) =
      (if (⟨form, s⟩ : Loop.Kind) = k then .opening :: sides k body ++ [.closing]
        else sides k body) ++ sides k rest := by
  by_cases hk : (⟨form, s⟩ : Loop.Kind) = k
  all_goals simp [sides, sideOf, Instruction.bracket?, Code.enclose, hk]

theorem balanced_enclose {k : Loop.Kind} {form : LoopForm} {s : Scope}
    {body rest : List Instruction} (hb : Balanced (sides k body)) (hr : Balanced (sides k rest)) :
    Balanced (sides k (Code.enclose form s body rest)) := by
  rw [sides_enclose]
  apply Balanced.append _ hr
  split
  · exact hb.wrap
  · exact hb

/-- In the code of a structured program, the brackets of every kind are balanced. -/
theorem balanced_sides_flatten (k : Loop.Kind) {p : Place} (c : Code p) :
    Balanced (sides k c.flatten) := by
  induction c with
  | done => exact balanced_nil
  | plain i hi next ih =>
      rw [Code.flatten, sides_cons_of_none hi]
      exact ih
  | whileLoop s body next ihb ihn => exact balanced_enclose ihb ihn
  | doWhile s body next ihb ihn => exact balanced_enclose ihb ihn

/-! ### Code in a program -/

/-- The instructions of the code stand in the program from the address `a` on. -/
def Sits (P : Program) (a : ℕ) {p : Place} (c : Code p) : Prop :=
  ∃ before after, P.instructions = before ++ c.flatten ++ after ∧ before.length = a

/-- The brackets of a loop stand around its body, and each is sent to the other. -/
structure LoopAt (P : Program) (a : ℕ) (form : LoopForm) (s : Scope) (body : Code .inLoop) :
    Prop where
  opening : P.instruction? a = some (.perform s (.opening form))
  closing : P.instruction? (a + 1 + body.size) = some (.perform s (.closing form))
  forth : P.jumps.target? a = some (a + 1 + body.size)
  back : P.jumps.target? (a + 1 + body.size) = some a
  body : Sits P (a + 1) body

theorem instruction?_eq (P : Program) (a : ℕ) : P.instruction? a = P.instructions[a]? := by
  simp [Program.instruction?, Program.instructions]

theorem Sits.plain {P : Program} {a : ℕ} {p : Place} {i : Instruction} {hi : i.bracket? = none}
    {next : Code p} (h : Sits P a (.plain i hi next)) :
    P.instruction? a = some i ∧ Sits P (a + 1) next := by
  obtain ⟨before, after, hP, rfl⟩ := h
  refine ⟨?_, before ++ [i], after, ?_, by simp⟩
  · rw [instruction?_eq, hP]
    simp [Code.flatten]
  · rw [hP]
    simp [Code.flatten]

theorem encloses_enclose (before after : List Instruction) (form : LoopForm) (s : Scope)
    (body : Code .inLoop) :
    Encloses (before ++ Code.enclose form s body.flatten after) ⟨form, s⟩ before.length
      (before.length + 1 + body.size) where
  lt := by omega
  opening := by simp [bracketAt, Code.enclose, Instruction.bracket?]
  closing := by
    rw [← Code.length_flatten]
    simp [bracketAt, Code.enclose, Instruction.bracket?, Nat.add_assoc, Nat.add_comm 1]
  balanced := by
    have hmid : ((before ++ Code.enclose form s body.flatten after).take
        (before.length + 1 + body.size)).drop (before.length + 1) = body.flatten := by
      rw [← Code.length_flatten]
      simp [Code.enclose, List.take_append, List.drop_append, Nat.add_assoc, Nat.add_comm 1]
    rw [hmid]
    exact balanced_sides_flatten _ body

theorem target?_eq (P : Program) (a : ℕ) :
    P.jumps.target? a = (JumpTable.ofInstructions P.instructions).target? a := by
  rw [P.jumps_eq]
  rfl

theorem loopAt_of_enclose {P : Program} {before after : List Instruction} {form : LoopForm}
    {s : Scope} {body : Code .inLoop}
    (hP : P.instructions = before ++ Code.enclose form s body.flatten after) :
    LoopAt P before.length form s body := by
  have he := encloses_enclose before after form s body
  refine ⟨?_, ?_, ?_, ?_, before ++ [.perform s (.opening form)],
    .perform s (.closing form) :: after, ?_, by simp⟩
  · rw [instruction?_eq, hP]
    simp [Code.enclose]
  · rw [instruction?_eq, hP, ← Code.length_flatten]
    simp [Code.enclose, Nat.add_assoc, Nat.add_comm 1]
  · rw [target?_eq, JumpTable.target?_eq_some_iff, hP]
    exact ⟨_, .inl he⟩
  · rw [target?_eq, JumpTable.target?_eq_some_iff, hP]
    exact ⟨_, .inr he⟩
  · rw [hP]
    simp [Code.enclose]

theorem loop_of_flatten {P : Program} {p : Place} {before after : List Instruction}
    {form : LoopForm} {s : Scope} {body : Code .inLoop} {next : Code p}
    (hP : P.instructions = before ++ Code.enclose form s body.flatten next.flatten ++ after) :
    LoopAt P before.length form s body ∧ Sits P (before.length + body.size + 2) next := by
  have hP' : P.instructions =
      before ++ Code.enclose form s body.flatten (next.flatten ++ after) := by
    rw [hP]
    simp [Code.enclose]
  refine ⟨loopAt_of_enclose hP', before ++ .perform s (.opening form) ::
    (body.flatten ++ [.perform s (.closing form)]), after, ?_, ?_⟩
  · rw [hP']
    simp [Code.enclose]
  · rw [← Code.length_flatten]
    simp
    omega

theorem Sits.whileLoop {P : Program} {a : ℕ} {p : Place} {s : Scope} {body : Code .inLoop}
    {next : Code p} (h : Sits P a (.whileLoop s body next)) :
    LoopAt P a .testFirst s body ∧ Sits P (a + body.size + 2) next := by
  obtain ⟨before, after, hP, rfl⟩ := h
  exact loop_of_flatten hP

theorem Sits.doWhile {P : Program} {a : ℕ} {s : Scope} {body : Code .inLoop}
    {next : Code .outside} (h : Sits P a (.doWhile s body next)) :
    LoopAt P a .testLast s body ∧ Sits P (a + body.size + 2) next := by
  obtain ⟨before, after, hP, rfl⟩ := h
  exact loop_of_flatten hP

end TwinTape
