import TwinTape.Instruction

/-! # Loops and their brackets

A loop is a pair of brackets of one kind.  The kind tells when the loop tests its cell and in
which memory the cell lies; brackets of different kinds never belong together, and loops of
different kinds may cross. -/

namespace TwinTape

/-- Brackets pair up within a kind. -/
structure Loop.Kind where
  form : LoopForm
  scope : Scope
deriving DecidableEq, Repr

namespace Loop.Kind

/-- Every kind once, in the order of listings. -/
def all : List Loop.Kind :=
  [⟨.testFirst, .global⟩, ⟨.testLast, .global⟩, ⟨.testFirst, .local⟩, ⟨.testLast, .local⟩]

theorem mem_all (k : Loop.Kind) : k ∈ all := by
  obtain ⟨form, scope⟩ := k
  cases form <;> cases scope <;> decide

/-- The name of a kind in listings. -/
def name : Loop.Kind → String
  | ⟨.testFirst, .global⟩ => "while"
  | ⟨.testLast, .global⟩ => "do_while"
  | ⟨.testFirst, .local⟩ => "while_local"
  | ⟨.testLast, .local⟩ => "do_while_local"

end Loop.Kind

/-- Which end of a loop a bracket is. -/
inductive Loop.Side where
  | opening
  | closing
deriving DecidableEq, Repr

/-- A matched pair of brackets, by address. -/
structure Loop where
  kind : Loop.Kind
  opening : Nat
  closing : Nat
deriving DecidableEq, Repr

/-- The other bracket of the loop, if `address` is one of its two. -/
def Loop.partner? (loop : Loop) (address : Nat) : Option Nat :=
  if address = loop.opening then some loop.closing
  else if address = loop.closing then some loop.opening
  else none

/-- The kind and side of an instruction that is a bracket. -/
def Instruction.bracket? : Instruction → Option (Loop.Kind × Loop.Side)
  | .perform scope (.opening form) => some (⟨form, scope⟩, .opening)
  | .perform scope (.closing form) => some (⟨form, scope⟩, .closing)
  | _ => none

end TwinTape
