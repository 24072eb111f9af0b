import TwinTape.Number.Style

/-! # Tapes

A tape is a row of cells with a cursor on one of them.  It starts as a single zero cell and
grows by a zero cell whenever the cursor walks off an end, so the cursor always stands on a
cell.  The tape is kept as the cells on either side of the cursor, nearest first; its view is
`Tape.cells` with `Tape.cursor`, and one lemma per operation says what becomes of the view. -/

namespace TwinTape

/-- A row of cells with a cursor. -/
structure Tape where
  /-- The cells left of the cursor, nearest first. -/
  before : List Float := []
  /-- The cell under the cursor. -/
  cell : Float := 0.0
  /-- The cells right of the cursor, nearest first. -/
  after : List Float := []
deriving Repr

namespace Tape

instance : Inhabited Tape := ⟨{}⟩

/-! ### The view -/

/-- All cells from left to right. -/
def cells (t : Tape) : List Float := t.before.reverse ++ t.cell :: t.after

/-- The index of the cell under the cursor. -/
def cursor (t : Tape) : Nat := t.before.length

/-- Number of cells. -/
def size (t : Tape) : Nat := t.before.length + 1 + t.after.length

theorem length_cells (t : Tape) : t.cells.length = t.size := by
  simp [cells, size]
  omega

theorem cursor_lt_size (t : Tape) : t.cursor < t.size := by
  simp only [cursor, size]
  omega

theorem getElem?_cells_cursor (t : Tape) : t.cells[t.cursor]? = some t.cell := by
  simp [cells, cursor]

/-! ### Operations -/

/-- Writes the cell under the cursor. -/
def set (t : Tape) (x : Float) : Tape := { t with cell := x }

/-- Moves one cell to the right; past the last cell there is a new zero cell. -/
def right (t : Tape) : Tape :=
  match t.after with
  | [] => ⟨t.cell :: t.before, 0.0, []⟩
  | x :: after => ⟨t.cell :: t.before, x, after⟩

/-- The cursor stands on the first cell. -/
def isLeftmost (t : Tape) : Bool := t.before.isEmpty

/-- Moves one cell to the left; before the first cell there is a new zero cell. -/
def left (t : Tape) : Tape :=
  match t.before with
  | [] => ⟨[], 0.0, t.cell :: t.after⟩
  | x :: before => ⟨before, x, t.cell :: t.after⟩

theorem isLeftmost_iff (t : Tape) : t.isLeftmost = true ↔ t.cursor = 0 := by
  simp [isLeftmost, cursor]

theorem cells_set (t : Tape) (x : Float) : (t.set x).cells = t.cells.set t.cursor x := by
  simp [cells, cursor, set]

@[simp] theorem cursor_set (t : Tape) (x : Float) : (t.set x).cursor = t.cursor := rfl

theorem cells_right (t : Tape) :
    t.right.cells = if t.cursor + 1 < t.size then t.cells else t.cells ++ [0.0] := by
  obtain ⟨before, cell, after⟩ := t
  cases after <;> simp [right, cells, cursor, size]

@[simp] theorem cursor_right (t : Tape) : t.right.cursor = t.cursor + 1 := by
  obtain ⟨before, cell, after⟩ := t
  cases after <;> rfl

theorem cells_left (t : Tape) :
    t.left.cells = if t.cursor = 0 then 0.0 :: t.cells else t.cells := by
  obtain ⟨before, cell, after⟩ := t
  cases before <;> simp [left, cells, cursor]

@[simp] theorem cursor_left (t : Tape) : t.left.cursor = t.cursor - 1 := by
  obtain ⟨before, cell, after⟩ := t
  cases before <;> rfl

/-! ### Text -/

/-- The cells between brackets. -/
def text (t : Tape) : String :=
  "[" ++ ", ".intercalate (t.cells.map Style.listed.text) ++ "]"

end Tape
end TwinTape
