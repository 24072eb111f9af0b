import TwinTape.Command

/-! # Instructions

An instruction is a command with the memory it works on and, for an action, how often it is
done.  The type admits only what may be written: a count stands before actions alone, and a
swap has no scope.

* Written form: an apostrophe for the local memory, then `|n|` or `||` if there is a count, then
  the command (`Instruction.chars`).
* `Instruction.decode` reads a written form.  It takes a leading plus sign and leading zeros in
  a count, so several forms may stand for one instruction. -/

namespace TwinTape

/-- The memory an instruction works on. -/
inductive Scope where
  | global
  | «local»
deriving DecidableEq, Repr

/-- How often an action is done. -/
inductive Repeat where
  | once
  /-- A fixed count; a negative one asks for the opposite action. -/
  | times (n : Int64)
  /-- The floor of the active cell. -/
  | byCell
deriving DecidableEq, Repr

/-- A command with its scope and count. -/
inductive Instruction where
  | act (scope : Scope) (times : Repeat) (action : Action)
  | perform (scope : Scope) (operation : Operation)
  | swap
deriving DecidableEq, Repr

namespace Instruction

/-! ### Parts -/

/-- The memory whose active cell the instruction reads. -/
def scope : Instruction → Scope
  | act s _ _ => s
  | perform s _ => s
  | swap => .global

/-- How often the instruction is done. -/
def times : Instruction → Repeat
  | act _ r _ => r
  | _ => .once

/-- The command of an instruction. -/
def command : Instruction → Command
  | act _ _ a => .act a
  | perform _ o => .perform o
  | swap => .swap

/-- The command alone, once, on the global memory. -/
def ofCommand : Command → Instruction
  | .act a => act .global .once a
  | .perform o => perform .global o
  | .swap => swap

@[simp] theorem command_ofCommand (c : Command) : (ofCommand c).command = c := by
  cases c <;> rfl

/-- Puts scope and count before a command, if it takes them. -/
def assemble (s : Scope) (r : Repeat) : Command → Except Fault Instruction
  | .act a => .ok (act s r a)
  | .perform o => if r = .once then .ok (perform s o) else .error .notRepeatable
  | .swap =>
    if r ≠ .once then .error .notRepeatable
    else if s = .local then .error .notScopable
    else .ok swap

theorem assemble_self (i : Instruction) : assemble i.scope i.times i.command = .ok i := by
  cases i <;> rfl

end Instruction

/-! ### Counts -/

namespace Repeat

/-- The integer written as `cs`: an optional sign and at least one decimal digit, if it fits in
64 bits. -/
def readInteger? (cs : List Char) : Option Int64 :=
  let (negative, digits) :=
    match cs with
    | '-' :: ds => (true, ds)
    | '+' :: ds => (false, ds)
    | ds => (false, ds)
  if digits ≠ [] ∧ digits.all Char.isDigit then
    let magnitude : Int := Nat.ofDigitChars 10 digits 0
    let value := if negative then -magnitude else magnitude
    if Int64.minValue.toInt ≤ value ∧ value ≤ Int64.maxValue.toInt then some (Int64.ofInt value)
    else none
  else none

/-- An integer in decimal, with a minus sign if it is negative. -/
def integerChars (n : Int64) : List Char :=
  let value := n.toInt
  if value < 0 then '-' :: Nat.toDigits 10 value.natAbs else Nat.toDigits 10 value.natAbs

/-- The written form of a count. -/
def chars : Repeat → List Char
  | once => []
  | times n => '|' :: integerChars n ++ ['|']
  | byCell => ['|', '|']

/-- Reads an optional count between bars, and gives what follows it. -/
def decode (cs : List Char) : Except Fault (Repeat × List Char) :=
  match cs with
  | '|' :: t =>
    let count := t.takeWhile (· != '|')
    match t.dropWhile (· != '|') with
    | [] => .error .unterminatedCount
    | _ :: rest =>
      if count = [] then .ok (byCell, rest)
      else match readInteger? count with
        | some n => .ok (times n, rest)
        | none => .error .invalidCount
  | _ => .ok (once, cs)

end Repeat

namespace Scope

/-- The written form of a scope. -/
def chars : Scope → List Char
  | global => []
  | «local» => ['\x27']

/-- Reads an optional scope mark, and gives what follows it. -/
def decode : List Char → Scope × List Char
  | '\x27' :: rest => (.local, rest)
  | cs => (.global, cs)

end Scope

/-! ### Written form -/

namespace Instruction

/-- The written form of an instruction. -/
def chars (i : Instruction) : List Char := i.scope.chars ++ i.times.chars ++ i.command.lexeme

/-- The written form of an instruction, as a text. -/
def text (i : Instruction) : String := String.ofList i.chars

/-- Reads a written form: scope mark, count, command, in this order. -/
def decode (cs : List Char) : Except Fault Instruction := do
  let (scope, cs) := Scope.decode cs
  let (times, cs) ← Repeat.decode cs
  match Command.ofLexeme? cs with
  | none => .error .unknownCommand
  | some command => assemble scope times command

end Instruction
end TwinTape
