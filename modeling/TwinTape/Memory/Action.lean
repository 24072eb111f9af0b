import TwinTape.Command
import TwinTape.Memory

/-! # Actions on a memory

An action changes the active tape once.  Arithmetic takes the cell of the other tape as its
operand; the action leaves that cell alone, so in a repetition the operand stays the same, and
repeating the action on the memory is repeating it on the active tape with a fixed operand
(`actTimes_succ`). -/

namespace TwinTape

namespace Tape

/-- The tape after one action with the given operand. -/
def act (t : Tape) (operand : Float) : Action → Tape
  | .increment => t.set (t.cell + 1.0)
  | .decrement => t.set (t.cell - 1.0)
  | .add => t.set (t.cell + operand)
  | .subtract => t.set (t.cell - operand)
  | .multiply => t.set (t.cell * operand)
  | .divide => t.set (t.cell / operand)
  | .moveRight => t.right
  | .moveLeft => t.left

/-- The action walks off the left end of the tape. -/
def fallsLeft (t : Tape) (a : Action) : Bool := a == .moveLeft && t.isLeftmost

/-- The tape after an action has been done `n` times, and whether one of them walked off the left
end; `fell` tells if that happened before. -/
def actTimes (operand : Float) (a : Action) : Nat → Tape → Bool → Tape × Bool
  | 0, t, fell => (t, fell)
  | n + 1, t, fell => actTimes operand a n (t.act operand a) (fell || t.fallsLeft a)

end Tape

namespace Memory

/-- The memory after one action. -/
def act (m : Memory) (a : Action) : Memory := m.modify (·.act m.otherCell a)

/-- The action walks off the left end of the active tape. -/
def fallsLeft (m : Memory) (a : Action) : Bool := m.activeTape.fallsLeft a

/-- The memory after an action has been done `n` times, and whether one of them walked off the
left end; `fell` tells if that happened before. -/
def actTimes (m : Memory) (a : Action) (n : Nat) (fell : Bool) : Memory × Bool :=
  let (tape, fell) := m.activeTape.actTimes m.otherCell a n fell
  (m.modify fun _ => tape, fell)

@[simp] theorem active_act (m : Memory) (a : Action) : (m.act a).active = m.active := by
  simp [act]

@[simp] theorem otherCell_act (m : Memory) (a : Action) : (m.act a).otherCell = m.otherCell := by
  simp [act]

@[simp] theorem actTimes_zero (m : Memory) (a : Action) (fell : Bool) :
    m.actTimes a 0 fell = (m, fell) := by
  obtain ⟨first, second, active⟩ := m
  cases active <;> rfl

theorem actTimes_succ (m : Memory) (a : Action) (n : Nat) (fell : Bool) :
    m.actTimes a (n + 1) fell = (m.act a).actTimes a n (fell || m.fallsLeft a) := by
  obtain ⟨first, second, active⟩ := m
  cases active <;> rfl

end Memory
end TwinTape
