import TwinTape.Fault

/-! # Commands

A command is one of three things.

* An `Action` works on the active tape and can be repeated.  Every action has an opposite, and
  a negative repeat count asks for the opposite that many times.
* An `Operation` is done once: draw a number, switch tapes, read, write, or be a loop bracket.
  Five operations are reserved and do nothing yet.
* `Command.swap` exchanges the cells of the two memories, so it belongs to neither.

Each command is written as one or two characters (`Command.lexeme`), and `Command.ofLexeme?`
reads exactly these (`ofLexeme?_eq_some_iff`). -/

namespace TwinTape

/-- The commands that can be repeated. -/
inductive Action where
  | increment
  | decrement
  | add
  | subtract
  | multiply
  | divide
  | moveRight
  | moveLeft
deriving DecidableEq, Repr

/-- The action that a negative repeat count asks for. -/
def Action.opposite : Action → Action
  | increment => decrement
  | decrement => increment
  | add => subtract
  | subtract => add
  | multiply => divide
  | divide => multiply
  | moveRight => moveLeft
  | moveLeft => moveRight

@[simp] theorem Action.opposite_opposite (a : Action) : a.opposite.opposite = a := by
  cases a <;> rfl

/-- What is read from a line or written: a number, or one character. -/
inductive Medium where
  | number
  | character
deriving DecidableEq, Repr

/-- When a loop tests its cell. -/
inductive LoopForm where
  /-- Before each round. -/
  | testFirst
  /-- After each round. -/
  | testLast
deriving DecidableEq, Repr

/-- Commands that are accepted and do nothing. -/
inductive Reserved where
  | floor
  | ceil
  | breakEqual
  | breakLess
  | breakGreater
deriving DecidableEq, Repr

/-- The commands that are done once. -/
inductive Operation where
  | random
  | switchTape
  | input (medium : Medium)
  | output (medium : Medium)
  | opening (form : LoopForm)
  | closing (form : LoopForm)
  | reserved (what : Reserved)
deriving DecidableEq, Repr

/-- A command of the language, without scope and count. -/
inductive Command where
  | act (action : Action)
  | perform (operation : Operation)
  | swap
deriving DecidableEq, Repr

namespace Command

/-! ### Spelling -/

/-- The characters a command is written with. -/
def lexeme : Command → List Char
  | act .increment => ['!']
  | act .decrement => ['~']
  | act .add => ['+']
  | act .subtract => ['-']
  | act .multiply => ['*']
  | act .divide => ['/']
  | act .moveRight => ['>']
  | act .moveLeft => ['<']
  | perform .random => ['\x60']
  | perform .switchTape => ['^']
  | perform (.input .number) => ['$', '.']
  | perform (.input .character) => ['$', ',']
  | perform (.output .number) => ['\\', '.']
  | perform (.output .character) => ['\\', ',']
  | perform (.opening .testFirst) => ['[']
  | perform (.closing .testFirst) => [']']
  | perform (.opening .testLast) => ['[', '@']
  | perform (.closing .testLast) => ['@', ']']
  | perform (.reserved .floor) => ['_']
  | perform (.reserved .ceil) => ['&']
  | perform (.reserved .breakEqual) => ['?', '=']
  | perform (.reserved .breakLess) => ['?', '<']
  | perform (.reserved .breakGreater) => ['?', '>']
  | swap => [';']

/-- The characters a command is written with, as a text. -/
def text (c : Command) : String := String.ofList c.lexeme

/-- Every command once. -/
def all : List Command :=
  [act .increment, act .decrement, act .add, act .subtract, act .multiply, act .divide,
   perform .random, act .moveRight, act .moveLeft, perform (.reserved .floor),
   perform (.reserved .ceil), perform .switchTape, perform (.opening .testLast),
   perform (.closing .testLast), perform (.opening .testFirst), perform (.closing .testFirst),
   perform (.input .number), perform (.input .character), perform (.output .number),
   perform (.output .character), perform (.reserved .breakEqual), perform (.reserved .breakLess),
   perform (.reserved .breakGreater), swap]

theorem mem_all (c : Command) : c ∈ all := by
  rcases c with a | o | _
  · cases a <;> decide
  · rcases o with _ | _ | m | m | f | f | r
    · decide
    · decide
    all_goals first | (cases m <;> decide) | (cases f <;> decide) | (cases r <;> decide)
  · decide

/-- The command written as `cs`. -/
def ofLexeme? (cs : List Char) : Option Command := all.find? (·.lexeme == cs)

theorem ofLexeme?_lexeme (c : Command) : ofLexeme? c.lexeme = some c := by
  have h : ∀ d ∈ all, ofLexeme? d.lexeme = some d := by decide
  exact h c (mem_all c)

/-- A command is read from its own spelling and from no other. -/
theorem ofLexeme?_eq_some_iff {cs : List Char} {c : Command} :
    ofLexeme? cs = some c ↔ cs = c.lexeme := by
  constructor
  · intro h
    have := List.find?_some h
    exact (beq_iff_eq.mp this).symm
  · rintro rfl
    exact ofLexeme?_lexeme c

/-! ### What may stand before a command -/

/-- The command that a negative repeat count asks for. -/
def opposite? : Command → Option Command
  | act a => some (act a.opposite)
  | _ => none

/-- A repeat count may stand before the command. -/
def acceptsRepeat (c : Command) : Bool := c.opposite?.isSome

/-- A scope mark may stand before the command. -/
def acceptsScope (c : Command) : Bool := c != swap

end Command
end TwinTape
