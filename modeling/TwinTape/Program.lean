import TwinTape.JumpTable
import TwinTape.Lexer

/-! # Programs

A program is a list of instructions, each with its place in the text, and the table of its
jumps.  `Program.compile` makes one from a text in three passes, and the first fault wins:

* the text must consist of tokens and its last token must be a terminator;
* every command lexeme must decode;
* the brackets are matched, which never fails: a bracket without a partner is a fault only when
  it is executed. -/

namespace TwinTape

/-- An instruction with its place in the text. -/
structure Placed where
  instruction : Instruction
  position : Position
deriving DecidableEq, Repr

/-- A program that can be run. -/
structure Program where
  /-- The name of the text. -/
  source : String
  code : List Placed
  jumps : JumpTable
  /-- The table is that of the instructions. -/
  jumps_eq : jumps = JumpTable.ofInstructions (code.map (·.instruction))
deriving DecidableEq, Repr

namespace Program

/-- The program of the given instructions. -/
def ofCode (source : String) (code : List Placed) : Program :=
  ⟨source, code, _, rfl⟩

/-- The program without a name and without instructions. -/
def empty : Program := ofCode "" []

instance : Inhabited Program := ⟨empty⟩

/-! ### Reading a text -/

/-- Decodes the command among tokens and drops the rest. -/
def decodeTokens (source : String) : List Token → Except Fault (List Placed)
  | [] => .ok []
  | t :: ts =>
    if t.kind = .command then
      match Instruction.decode t.lexeme with
      | .error fault => .error ((fault.located t.position).inSource source)
      | .ok i => (decodeTokens source ts).map (⟨i, t.position⟩ :: ·)
    else decodeTokens source ts

/-- Decodes the commands that follow; a fault of a command wins over one of the text after it. -/
def decodeRest (lexer : Lexer) : Except Fault (List Placed) :=
  let (tokens, last) := lexer.scan
  match decodeTokens lexer.source tokens, last with
  | .error fault, _ => .error fault
  | .ok _, .error fault => .error fault
  | .ok code, .ok _ => .ok code

/-- The program written as `text`. -/
def compile (source text : String) : Except Fault Program := do
  let lexer := Lexer.ofText source text
  lexer.validate
  let code ← decodeRest lexer
  return ofCode source code

/-! ### Looking up -/

/-- The instructions without their places. -/
def instructions (p : Program) : List Instruction := p.code.map (·.instruction)

/-- Number of instructions. -/
def size (p : Program) : Nat := p.code.length

/-- The instruction at an address. -/
def instruction? (p : Program) (address : Nat) : Option Instruction :=
  p.code[address]?.map (·.instruction)

/-- The place of the instruction at an address; the start of the text past the last one. -/
def position (p : Program) (address : Nat) : Position :=
  match p.code[address]? with
  | some placed => placed.position
  | none => .start

/-- The instructions with a space between them. -/
def text (p : Program) : String := " ".intercalate (p.instructions.map (·.text))

end Program
end TwinTape
