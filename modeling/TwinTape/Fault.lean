import TwinTape.Token

/-! # Faults

Everything that can go wrong is a `Fault`: its kind, and as far as they are known the place,
the name of the text it concerns and a note.  The wording of every note stands in this module,
so that a reader finds all of them together.

* `Fault.Kind.code` numbers the kinds; kinds of the outer world start at fifty.
* `Fault.message` is the line a user sees. -/

namespace TwinTape

/-- What kind of thing went wrong. -/
inductive Fault.Kind where
  /-- The run was interrupted. -/
  | interrupted
  /-- The text is not made of commands. -/
  | malformed
  /-- The text does not end in a line terminator. -/
  | unterminated
  /-- A loop bracket without a partner was executed. -/
  | unmatchedBracket
  /-- A line or a cell is not a usable number. -/
  | invalidNumber
  /-- A cell is not the code of a character. -/
  | invalidCharacter
  /-- A line holds no character. -/
  | invalidInput
  /-- The machine is in a state it never reaches. -/
  | internal
  /-- The program file does not exist. -/
  | fileMissing
  /-- The program file exists and can not be read. -/
  | fileUnreadable
deriving DecidableEq, Repr

/-- A kind of fault with what is known about it. -/
structure Fault where
  kind : Fault.Kind
  position : Option Position := none
  source : Option String := none
  note : String := ""
deriving DecidableEq, Repr

namespace Fault

/-! ### Kinds -/

/-- The number of a kind. -/
def Kind.code : Kind → Nat
  | interrupted => 1
  | malformed => 2
  | unterminated => 3
  | unmatchedBracket => 4
  | invalidNumber => 5
  | invalidCharacter => 6
  | invalidInput => 7
  | internal => 51
  | fileMissing => 53
  | fileUnreadable => 57

/-- The words a message starts with. -/
def Kind.title : Kind → String
  | interrupted => "BREAK"
  | malformed => "SYNTAX ERROR"
  | unterminated => "':' EXPECTED"
  | unmatchedBracket => "UNMATCHED BRACKET"
  | invalidNumber => "INVALID NUMBER"
  | invalidCharacter => "INVALID CHARACTER"
  | invalidInput => "INVALID INPUT"
  | internal => "INTERNAL ERROR"
  | fileMissing => "FILE NOT FOUND"
  | fileUnreadable => "DISK I/O ERROR"

theorem Kind.code_injective {a b : Kind} (h : a.code = b.code) : a = b := by
  cases a <;> cases b <;> first | rfl | simp [code] at h

/-! ### What is known about a fault -/

/-- The fault at the place `p`. -/
def located (f : Fault) (p : Position) : Fault := { f with position := some p }

/-- The fault in the text named `source`. -/
def inSource (f : Fault) (source : String) : Fault := { f with source := some source }

/-- The fault with the note `note`. -/
def noted (f : Fault) (note : String) : Fault := { f with note := note }

/-- Title, place, name of the text and note, as far as they are known. -/
def message (f : Fault) : String :=
  f.kind.title
    ++ (match f.position with | some p => " AT " ++ p.text | none => "")
    ++ (match f.source with | some s => " IN " ++ s | none => "")
    ++ (if f.note = "" then "" else "; " ++ f.note)

/-- The message inside braces, for listings of values. -/
def listing (f : Fault) : String := "Error \x7b " ++ f.message ++ " \x7d"

/-! ### The faults of this library -/

/-- No rule matches where the lexer stands. -/
def noCommandMatches : Fault := { kind := .malformed, note := "NO COMMAND MATCHES" }

/-- A lexeme names no command. -/
def unknownCommand : Fault := { kind := .malformed, note := "UNKNOWN COMMAND" }

/-- A repeat count has no closing bar. -/
def unterminatedCount : Fault := { kind := .malformed, note := "UNTERMINATED REPEAT COUNT" }

/-- A repeat count is not an integer of 64 bits. -/
def invalidCount : Fault := { kind := .malformed, note := "INVALID REPEAT COUNT" }

/-- A repeat count stands before a command that takes none. -/
def notRepeatable : Fault := { kind := .malformed, note := "COMMAND CAN NOT BE REPEATED" }

/-- A scope mark stands before a command that takes none. -/
def notScopable : Fault := { kind := .malformed, note := "COMMAND CAN NOT BE LOCAL" }

/-- A repeat count was to come from a cell that is infinite or not a number. -/
def countNotFinite : Fault := { kind := .invalidNumber, note := "REPEAT COUNT IS NOT FINITE" }

/-- A character was to come from a line without one. -/
def emptyLine : Fault := { kind := .invalidInput, note := "EMPTY LINE" }

/-- The program counter left the program while the machine was running. -/
def counterOutOfRange : Fault := { kind := .internal, note := "PROGRAM COUNTER OUT OF RANGE" }

/-- The bytes of a program file are not a text. -/
def notText : Fault := { kind := .fileUnreadable, note := "NOT UTF-8" }

end Fault
end TwinTape
