import TwinTape.Token

/-! # Token rules

The lexer tries a list of rules in order and takes the first that matches.  A rule looks at the
text from its start and says how many characters belong to the token.

* A command rule gives the first character of the command and, for a command of two characters,
  the ones that may come second.  Before them it may admit a scope mark, and between the mark
  and the command a count: two bars with nothing or a decimal integer between them.
* A terminator is a colon with an optional carriage return and an optional line feed after it.
* A comment runs from a quote to the next quote.
* Blanks are spaces, tabs, vertical tabs and form feeds; a line feed is none.

A rule never matches the empty text, and never more than there is (`length?_bounds`). -/

namespace TwinTape

/-- How one kind of token starts a text. -/
inductive Rule where
  /-- `marked` admits a scope mark and `counted` a count; `second` is empty for a command of one
  character. -/
  | command (marked counted : Bool) (first : Char) (second : List Char)
  | terminator
  | comment
  | blanks
deriving DecidableEq, Repr

namespace Rule

/-- The kind of the tokens a rule makes. -/
def kind : Rule → Token.Kind
  | command .. => .command
  | terminator => .terminator
  | comment => .comment
  | blanks => .blank

/-- The characters that separate commands. -/
def isBlank (c : Char) : Bool := c == ' ' || c == '\t' || c == '\x0b' || c == '\x0c'

/-! ### Lengths of the parts -/

/-- Length of the scope mark at the start of a text, zero if there is none. -/
def markLength : List Char → Nat
  | '\x27' :: _ => 1
  | _ => 0

/-- Length of the minus sign at the start of a text, zero if there is none. -/
def minusLength : List Char → Nat
  | '-' :: _ => 1
  | _ => 0

/-- Length of the count at the start of a text with its bars, zero if there is none. -/
def countLength : List Char → Nat
  | '|' :: t =>
    let sign := minusLength t
    let digits := ((t.drop sign).takeWhile Char.isDigit).length
    match t.drop (sign + digits) with
    | '|' :: _ => if 0 < sign ∧ digits = 0 then 0 else sign + digits + 2
    | _ => 0
  | _ => 0

/-- Length of the command at the start of a text, given its possible characters. -/
def commandLength? (first : Char) (second : List Char) : List Char → Option Nat
  | [] => none
  | c :: t =>
    if c ≠ first then none
    else if second = [] then some 1
    else match t with
      | d :: _ => if d ∈ second then some 2 else none
      | [] => none

/-- How many characters of the text belong to the token, if the rule matches. -/
def length? : Rule → List Char → Option Nat
  | command marked counted first second, text =>
    let mark := if marked then markLength text else 0
    let count := if counted then countLength (text.drop mark) else 0
    (commandLength? first second (text.drop (mark + count))).map (mark + count + ·)
  | terminator, ':' :: '\r' :: '\n' :: _ => some 3
  | terminator, ':' :: '\r' :: _ => some 2
  | terminator, ':' :: '\n' :: _ => some 2
  | terminator, ':' :: _ => some 1
  | terminator, _ => none
  | comment, '"' :: text =>
    let body := (text.takeWhile (· != '"')).length
    if body < text.length then some (body + 2) else none
  | comment, _ => none
  | blanks, text =>
    let n := (text.takeWhile isBlank).length
    if n = 0 then none else some n

/-! ### Bounds -/

theorem commandLength?_bounds {first : Char} {second text : List Char} {n : Nat}
    (h : commandLength? first second text = some n) : 0 < n ∧ n ≤ text.length := by
  unfold commandLength? at h
  split at h
  · simp at h
  · split at h
    · simp at h
    · split at h
      · simp only [Option.some.injEq] at h
        subst h
        simp
      · split at h
        · split at h
          · simp only [Option.some.injEq] at h
            subst h
            simp
          · simp at h
        · simp at h

/-- A token has at least one character and ends within the text. -/
theorem length?_bounds {r : Rule} {text : List Char} {n : Nat} (h : r.length? text = some n) :
    0 < n ∧ n ≤ text.length := by
  unfold length? at h
  split at h
  · obtain ⟨k, hk, rfl⟩ := Option.map_eq_some_iff.1 h
    have := commandLength?_bounds hk
    rw [List.length_drop] at this
    omega
  · simp only [Option.some.injEq] at h; subst h; simp
  · simp only [Option.some.injEq] at h; subst h; simp
  · simp only [Option.some.injEq] at h; subst h; simp
  · simp only [Option.some.injEq] at h; subst h; simp
  · simp at h
  · simp only [Option.ite_none_right_eq_some, Option.some.injEq] at h
    simp only [List.length_cons]
    omega
  · simp at h
  · simp only [Option.ite_none_left_eq_some, Option.some.injEq] at h
    have := (List.takeWhile_prefix (l := text) isBlank).length_le
    omega

/-! ### The rules of the language -/

/-- The rules in the order in which they are tried.  The bracket of two characters stands before
the one of one character. -/
def grammar : List Rule :=
  [command true true '!' [],
   command true true '~' [],
   command true true '+' [],
   command true true '-' [],
   command true true '*' [],
   command true true '/' [],
   command true false '\x60' [],
   command true true '>' [],
   command true true '<' [],
   command true false '_' [],
   command true false '&' [],
   command true false '^' [],
   command true false '[' ['@'],
   command true false '@' [']'],
   command true false '[' [],
   command true false ']' [],
   command true false '$' ['.', ','],
   command true false '\\' ['.', ','],
   command true false '?' ['='],
   command true false '?' ['<'],
   command true false '?' ['>'],
   command false false ';' [],
   terminator,
   comment,
   blanks]

/-- Kind and length of the token at the start of a text, by the first rule that matches. -/
def firstMatch (rules : List Rule) (text : List Char) : Option (Token.Kind × Nat) :=
  rules.findSome? fun r => (r.length? text).map (r.kind, ·)

theorem firstMatch_bounds {rules : List Rule} {text : List Char} {k : Token.Kind} {n : Nat}
    (h : firstMatch rules text = some (k, n)) : 0 < n ∧ n ≤ text.length := by
  obtain ⟨r, _, hr⟩ := List.exists_of_findSome?_eq_some h
  obtain ⟨m, hm, e⟩ := Option.map_eq_some_iff.1 hr
  cases e
  exact length?_bounds hm

end Rule
end TwinTape
