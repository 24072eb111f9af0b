import TwinTape.Fault
import TwinTape.Token.Rule

/-! # The lexer

A lexer stands somewhere in a program text and hands out one token after the other.

* Where a rule matches, the token is what the first matching rule takes.
* A quote that no rule takes opens a comment that does not close; it swallows the text through
  the next quote, or all of it.
* Any other character is a fault, and the lexer stays where it is.

A token shortens the text that is left (`length_rest_nextWith`), so reading ends. -/

namespace TwinTape

/-- A place in a program text from which tokens are read. -/
structure Lexer where
  /-- The name of the text. -/
  source : String
  /-- The characters not read yet. -/
  rest : List Char
  /-- The place of the first of them. -/
  position : Position
  /-- The lexer stands inside a comment that no rule takes. -/
  quoted : Bool
deriving DecidableEq, Repr

namespace Lexer

/-- The lexer at the start of a text. -/
def ofText (source text : String) : Lexer := ⟨source, text.toList, .start, false⟩

/-- Moves past the next `n` characters. -/
def skip (lexer : Lexer) (n : Nat) : Lexer :=
  { lexer with
    rest := lexer.rest.drop n
    position := lexer.position.advance (lexer.rest.take n) }

@[simp] theorem rest_skip (lexer : Lexer) (n : Nat) :
    (lexer.skip n).rest = lexer.rest.drop n := rfl

/-- Number of characters before the next quote. -/
def untilQuote (lexer : Lexer) : Nat := (lexer.rest.takeWhile (· != '"')).length

/-- Moves past the next quote, or to the end of the text if there is none. -/
def skipComment (lexer : Lexer) : Lexer :=
  { lexer.skip (lexer.untilQuote + 1) with
    quoted := lexer.untilQuote == lexer.rest.length }

@[simp] theorem rest_skipComment (lexer : Lexer) :
    lexer.skipComment.rest = lexer.rest.drop (lexer.untilQuote + 1) := rfl

/-- Moves past a quote that opens a comment. -/
def openComment (lexer : Lexer) : Lexer := { lexer.skip 1 with quoted := true }

@[simp] theorem rest_openComment (lexer : Lexer) :
    lexer.openComment.rest = lexer.rest.drop 1 := rfl

/-- The token of the given kind made of the next `n` characters. -/
def token (lexer : Lexer) (kind : Token.Kind) (n : Nat) : Token :=
  ⟨kind, lexer.rest.take n, lexer.position⟩

/-! ### One token -/

/-- The next token by the given rules, nothing at the end of the text, or a fault; and the lexer
after it. -/
def nextWith (rules : List Rule) (lexer : Lexer) : Except Fault (Option Token) × Lexer :=
  match h : lexer.rest with
  | [] => (.ok none, lexer)
  | c :: _ =>
    have : 0 < lexer.rest.length := by simp [h]
    if lexer.quoted then nextWith rules lexer.skipComment
    else match Rule.firstMatch rules lexer.rest with
      | some (kind, n) => (.ok (some (lexer.token kind n)), lexer.skip n)
      | none =>
        if c = '"' then nextWith rules lexer.openComment
        else (.error ((Fault.noCommandMatches.located lexer.position).inSource lexer.source), lexer)
termination_by lexer.rest.length
decreasing_by
  · simp only [rest_skipComment, List.length_drop]
    omega
  · simp only [rest_openComment, List.length_drop]
    omega

/-- The next token. -/
def next (lexer : Lexer) : Except Fault (Option Token) × Lexer := lexer.nextWith Rule.grammar

theorem length_rest_nextWith {rules : List Rule} {lexer after : Lexer} {t : Token}
    (h : lexer.nextWith rules = (.ok (some t), after)) :
    after.rest.length < lexer.rest.length := by
  fun_induction nextWith rules lexer with
  | case1 => simp at h
  | case2 lexer c tail hr _ _ ih =>
    have := ih h
    simp only [rest_skipComment, List.length_drop, hr, List.length_cons] at this ⊢
    omega
  | case3 lexer c tail hr _ _ kind n hn =>
    have := Rule.firstMatch_bounds hn
    cases h
    simp only [rest_skip, List.length_drop]
    omega
  | case4 lexer tail hr _ _ hn ih =>
    have := ih h
    simp only [rest_openComment, List.length_drop] at this
    omega
  | case5 => simp at h

/-! ### All tokens -/

/-- The tokens up to the end of the text or the first fault; with the lexer at the end, or the
fault. -/
def scanWith (rules : List Rule) (lexer : Lexer) : List Token × Except Fault Lexer :=
  match h : lexer.nextWith rules with
  | (.ok (some t), after) =>
    have : after.rest.length < lexer.rest.length := length_rest_nextWith h
    let (tokens, last) := scanWith rules after
    (t :: tokens, last)
  | (.ok none, after) => ([], .ok after)
  | (.error fault, _) => ([], .error fault)
termination_by lexer.rest.length
decreasing_by assumption

theorem scanWith_of_token {rules : List Rule} {lexer after : Lexer} {t : Token}
    (h : lexer.nextWith rules = (.ok (some t), after)) :
    lexer.scanWith rules = (t :: (after.scanWith rules).1, (after.scanWith rules).2) := by
  rw [scanWith]
  split <;> simp_all

theorem scanWith_of_end {rules : List Rule} {lexer after : Lexer}
    (h : lexer.nextWith rules = (.ok none, after)) : lexer.scanWith rules = ([], .ok after) := by
  rw [scanWith]
  split <;> simp_all

theorem scanWith_of_fault {rules : List Rule} {lexer after : Lexer} {fault : Fault}
    (h : lexer.nextWith rules = (.error fault, after)) :
    lexer.scanWith rules = ([], .error fault) := by
  rw [scanWith]
  split <;> simp_all

/-- The tokens up to the end of the text or the first fault. -/
def scan (lexer : Lexer) : List Token × Except Fault Lexer := lexer.scanWith Rule.grammar

/-- All tokens of the rest of the text. -/
def tokens (lexer : Lexer) : Except Fault (List Token) :=
  let (tokens, last) := lexer.scan
  last.map fun _ => tokens

/-- Accepts a text whose last token is a terminator. -/
def validate (lexer : Lexer) : Except Fault Unit :=
  match lexer.scan with
  | (_, .error fault) => .error fault
  | (tokens, .ok last) =>
    if tokens.getLast?.any (·.kind = .terminator) then .ok ()
    else
      let fault : Fault := { kind := .unterminated }
      .error ((fault.located last.position).inSource last.source)

end Lexer
end TwinTape
