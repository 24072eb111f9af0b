import TwinTape.Tape

/-! # Memories

A memory is two tapes, one of which is active.  Commands work on the active tape and use the
cell under the cursor of the other one as their operand. -/

namespace TwinTape

/-- One of the two tapes of a memory. -/
inductive Side where
  | first
  | second
deriving DecidableEq, Repr

namespace Side

/-- The other one of the two. -/
def other : Side → Side
  | first => second
  | second => first

@[simp] theorem other_other (s : Side) : s.other.other = s := by cases s <;> rfl

/-- Zero for the first tape and one for the second. -/
def index : Side → Nat
  | first => 0
  | second => 1

end Side

/-- Two tapes and which of them is active. -/
structure Memory where
  first : Tape := {}
  second : Tape := {}
  active : Side := .first
deriving Repr

namespace Memory

instance : Inhabited Memory := ⟨{}⟩

/-- The tape on a side. -/
def tape (m : Memory) : Side → Tape
  | .first => m.first
  | .second => m.second

/-- The active tape. -/
def activeTape (m : Memory) : Tape := m.tape m.active

/-- The cell under the cursor of the active tape. -/
def cell (m : Memory) : Float := m.activeTape.cell

/-- The cell under the cursor of the other tape. -/
def otherCell (m : Memory) : Float := (m.tape m.active.other).cell

/-- Changes the active tape. -/
def modify (m : Memory) (f : Tape → Tape) : Memory :=
  match m.active with
  | .first => { m with first := f m.first }
  | .second => { m with second := f m.second }

/-- Writes the cell under the cursor of the active tape. -/
def set (m : Memory) (x : Float) : Memory := m.modify (·.set x)

/-- Makes the other tape active. -/
def switch (m : Memory) : Memory := { m with active := m.active.other }

@[simp] theorem active_modify (m : Memory) (f : Tape → Tape) :
    (m.modify f).active = m.active := by
  unfold modify
  split <;> rfl

@[simp] theorem activeTape_modify (m : Memory) (f : Tape → Tape) :
    (m.modify f).activeTape = f m.activeTape := by
  obtain ⟨first, second, active⟩ := m
  cases active <;> rfl

@[simp] theorem otherCell_modify (m : Memory) (f : Tape → Tape) :
    (m.modify f).otherCell = m.otherCell := by
  obtain ⟨first, second, active⟩ := m
  cases active <;> rfl

@[simp] theorem cell_set (m : Memory) (x : Float) : (m.set x).cell = x := by
  simp [cell, set, Tape.set]

@[simp] theorem switch_switch (m : Memory) : m.switch.switch = m := by
  obtain ⟨first, second, active⟩ := m
  cases active <;> rfl

/-- Both tapes, their cursors and the active one. -/
def text (m : Memory) : String :=
  m.first.text ++ " " ++ m.second.text ++ " cursors [" ++ toString m.first.cursor ++ ", "
    ++ toString m.second.cursor ++ "] active " ++ toString m.active.index

end Memory
end TwinTape
