import TwinTape.Loop

/-! # The jump table

The brackets of a program are matched in one pass.  Every opening bracket waits in a list with
its own imbalance, the openings less the closings of its kind since then, itself included.  A
closing bracket resolves the first waiting entry whose imbalance comes down to zero; if there
is none it stays unmatched, as does every entry that still waits at the end.

`JumpTable.target?` sends each matched bracket to its partner. -/

namespace TwinTape

/-! ### The pass over the brackets -/

/-- An opening bracket that waits for its partner. -/
structure Pending where
  kind : Loop.Kind
  opening : Nat
  /-- Openings less closings of the kind, from this bracket on. -/
  imbalance : Int
deriving DecidableEq, Repr

/-- Changes the imbalance of an entry of the given kind. -/
def Pending.shift (kind : Loop.Kind) (change : Int) (p : Pending) : Pending :=
  if p.kind = kind then { p with imbalance := p.imbalance + change } else p

/-- What is known after some of the instructions. -/
structure Matching where
  /-- The opening brackets without a partner so far, in order. -/
  pending : List Pending := []
  /-- The loops found, the latest first. -/
  loops : List Loop := []
  /-- The closing brackets that found no partner, the latest first. -/
  strays : List Nat := []
deriving DecidableEq, Repr

namespace Matching

/-- An opening bracket waits, and counts for every waiting entry of its kind. -/
def readOpening (m : Matching) (kind : Loop.Kind) (address : Nat) : Matching :=
  let entry : Pending := ⟨kind, address, 0⟩
  { m with pending := (m.pending ++ [entry]).map (Pending.shift kind 1) }

/-- A closing bracket counts for every waiting entry of its kind and resolves one. -/
def readClosing (m : Matching) (kind : Loop.Kind) (address : Nat) : Matching :=
  let pending := m.pending.map (Pending.shift kind (-1))
  match pending.find? (·.imbalance == 0) with
  | some p =>
    { m with
      pending := pending.eraseP (·.imbalance == 0)
      loops := ⟨p.kind, p.opening, address⟩ :: m.loops }
  | none => { m with pending := pending, strays := address :: m.strays }

/-- Takes the instruction at `address` into account. -/
def read (m : Matching) (address : Nat) (i : Instruction) : Matching :=
  match i.bracket? with
  | none => m
  | some (kind, .opening) => m.readOpening kind address
  | some (kind, .closing) => m.readClosing kind address

/-- Takes instructions into account, the first of which stands at `address`. -/
def readAll (m : Matching) (address : Nat) : List Instruction → Matching
  | [] => m
  | i :: is => (m.read address i).readAll (address + 1) is

theorem readAll_append (m : Matching) (address : Nat) (is js : List Instruction) :
    m.readAll address (is ++ js) = (m.readAll address is).readAll (address + is.length) js := by
  induction is generalizing m address with
  | nil => rfl
  | cons i is ih =>
    simp only [List.cons_append, readAll, ih, List.length_cons]
    rw [Nat.add_assoc, Nat.add_comm 1]

/-- Every bracket without a partner. -/
def unmatched (m : Matching) : List Nat := m.strays ++ m.pending.map (·.opening)

end Matching

/-! ### The table -/

/-- The loops of a program, and its brackets without a partner. -/
structure JumpTable where
  loops : List Loop := []
  /-- In ascending order. -/
  unmatched : List Nat := []
deriving DecidableEq, Repr

namespace JumpTable

/-- Matches the brackets of a program. -/
def ofInstructions (is : List Instruction) : JumpTable :=
  let m := Matching.readAll {} 0 is
  ⟨m.loops, m.unmatched.mergeSort (· ≤ ·)⟩

/-- The partner of the bracket at `address`. -/
def target? (table : JumpTable) (address : Nat) : Option Nat :=
  table.loops.findSome? (·.partner? address)

/-- Every bracket of a kind with its partner, by ascending address. -/
def jumps (table : JumpTable) (kind : Loop.Kind) : List (Nat × Nat) :=
  let loops := table.loops.filter (·.kind = kind)
  (loops.flatMap fun l => [(l.opening, l.closing), (l.closing, l.opening)]).mergeSort
    fun a b => a.1 ≤ b.1

/-- No bracket has a partner. -/
def isEmpty (table : JumpTable) : Bool := table.loops.isEmpty

/-- One group per kind, each with its jumps. -/
def text (table : JumpTable) : String :=
  let group (kind : Loop.Kind) : String :=
    let pairs := (table.jumps kind).map fun (a, b) => toString a ++ ": " ++ toString b
    kind.name ++ ": \x7b" ++ ", ".intercalate pairs ++ "\x7d"
  " ".intercalate (Loop.Kind.all.map group)

end JumpTable
end TwinTape
