/-! # Tokens and their places

A token is a stretch of program text with its kind and the place of its first character.
Only commands reach the program; terminators, comments and blanks are read and dropped.

A place is a line and a column, both counted from one.  A line feed starts the next line and
every other character moves one column on, so the place after a text depends only on the
characters read.  Reading two texts in a row is the same as reading them joined
(`Position.advance_append`). -/

namespace TwinTape

/-- A line and a column of a program text, both counted from one. -/
structure Position where
  line : Nat
  column : Nat
deriving DecidableEq, Repr

namespace Position

/-- The place of the first character of a text. -/
def start : Position := ⟨1, 1⟩

instance : Inhabited Position := ⟨start⟩

/-- The place after the character `c` at `p`. -/
def step (p : Position) (c : Char) : Position :=
  if c = '\n' then ⟨p.line + 1, 1⟩ else ⟨p.line, p.column + 1⟩

/-- The place after the characters of `text`, the first of which stands at `p`. -/
def advance (p : Position) (text : List Char) : Position := text.foldl step p

@[simp] theorem advance_nil (p : Position) : p.advance [] = p := rfl

@[simp] theorem advance_cons (p : Position) (c : Char) (text : List Char) :
    p.advance (c :: text) = (p.step c).advance text := rfl

theorem advance_append (p : Position) (s t : List Char) :
    p.advance (s ++ t) = (p.advance s).advance t := by
  simp [advance]

/-- Line and column with a colon between them. -/
def text (p : Position) : String := toString p.line ++ ":" ++ toString p.column

end Position

/-- What a token stands for. -/
inductive Token.Kind where
  | command
  | terminator
  | comment
  | blank
deriving DecidableEq, Repr

/-- A stretch of program text. -/
structure Token where
  kind : Token.Kind
  /-- The characters as they are written. -/
  lexeme : List Char
  /-- The place of the first character. -/
  position : Position
deriving DecidableEq, Repr

end TwinTape
