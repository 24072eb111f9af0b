import TwinTape.Program
import Mathlib.Tactic.Common

/-! # Lexemes

The words of the language as data, apart from how they are found in a text.

* A command: an optional scope mark, an optional count, the characters of the command.  A count
  stands before actions only, and no mark stands before a swap.
* A terminator: a colon, an optional carriage return, an optional line feed.
* A comment: a text without quotes, between two quotes.
* Blanks: one or more of them.

A written command stands for an instruction just if the number in its count, if there is one, is
an integer of 64 bits; otherwise the fault is that of the count (`decode_chars`). -/

namespace TwinTape

/-! ### Counts -/

/-- What may stand between the scope mark and the command. -/
inductive Count where
  | absent
  /-- Two bars with nothing between them. -/
  | byCell
  /-- Two bars with a decimal number between them. -/
  | fixed (negative : Bool) (digits : List Char)
deriving DecidableEq, Repr

namespace Count

/-- A decimal number as it is written. -/
def numeral (negative : Bool) (digits : List Char) : List Char :=
  if negative then '-' :: digits else digits

/-- The integer that is written. -/
def value (negative : Bool) (digits : List Char) : Int :=
  if negative then -Int.ofNat (Nat.ofDigitChars 10 digits 0) else Nat.ofDigitChars 10 digits 0

/-- The characters of a count. -/
def chars : Count → List Char
  | absent => []
  | byCell => ['|', '|']
  | fixed negative digits => '|' :: (numeral negative digits ++ ['|'])

/-- A number has one digit at least. -/
def Valid : Count → Prop
  | fixed _ digits => digits ≠ [] ∧ ∀ d ∈ digits, d.isDigit
  | _ => True

/-- A number is an integer of 64 bits. -/
def Fits : Count → Prop
  | fixed negative digits =>
    -9223372036854775808 ≤ value negative digits ∧ value negative digits ≤ 9223372036854775807
  | _ => True

/-- How often the action is done. -/
def times : Count → Repeat
  | absent => .once
  | byCell => .byCell
  | fixed negative digits => .times (Int64.ofInt (value negative digits))

theorem digit_ne {d : Char} (hd : d.isDigit) : d ≠ '-' ∧ d ≠ '+' ∧ d ≠ '|' := by
  refine ⟨?_, ?_, ?_⟩ <;> rintro rfl <;> exact absurd hd (by decide)

theorem bar_notMem_numeral {negative : Bool} {digits : List Char}
    (hd : ∀ d ∈ digits, d.isDigit) : ∀ x ∈ numeral negative digits, x ≠ '|' := by
  intro x hx
  cases negative with
  | true =>
      rcases List.mem_cons.1 hx with rfl | hx
      · decide
      · exact (digit_ne (hd x hx)).2.2
  | false => exact (digit_ne (hd x hx)).2.2

theorem readInteger?_numeral (negative : Bool) {digits : List Char} (hne : digits ≠ [])
    (hd : ∀ d ∈ digits, d.isDigit) :
    ((fixed negative digits).Fits →
      Repeat.readInteger? (numeral negative digits) =
        some (Int64.ofInt (value negative digits))) ∧
    (¬ (fixed negative digits).Fits → Repeat.readInteger? (numeral negative digits) = none) := by
  have hall : digits.all Char.isDigit := List.all_eq_true.2 hd
  have hread : Repeat.readInteger? (numeral negative digits) =
      if Int64.minValue.toInt ≤ value negative digits ∧
        value negative digits ≤ Int64.maxValue.toInt then
        some (Int64.ofInt (value negative digits)) else none := by
    cases negative with
    | true =>
        unfold Repeat.readInteger?
        exact if_pos ⟨hne, hall⟩
    | false =>
        cases digits with
        | nil => exact absurd rfl hne
        | cons d ds =>
            obtain ⟨hm, hp, _⟩ := digit_ne (hd d (by simp))
            show Repeat.readInteger? (d :: ds) = _
            unfold Repeat.readInteger?
            split
            rename_i negative digits hsign
            have hsame : (negative, digits) = (false, d :: ds) := by
              rw [← hsign]
              split
              · simp_all
              · simp_all
              · rfl
            cases hsame
            exact if_pos ⟨hne, hall⟩
  have hmin : Int64.minValue.toInt = -9223372036854775808 := by decide
  have hmax : Int64.maxValue.toInt = 9223372036854775807 := by decide
  rw [hread, hmin, hmax]
  simp only [Fits]
  exact ⟨fun h => if_pos h, fun h => if_neg h⟩

theorem decode_fixed (negative : Bool) {digits : List Char} (hne : digits ≠ [])
    (hd : ∀ d ∈ digits, d.isDigit) (rest : List Char) :
    Repeat.decode ((fixed negative digits).chars ++ rest) =
      match Repeat.readInteger? (numeral negative digits) with
      | some n => .ok (.times n, rest)
      | none => .error .invalidCount := by
  have hbar : ∀ x ∈ numeral negative digits, (x != '|') = true := by
    intro x hx
    exact bne_iff_ne.2 (bar_notMem_numeral hd x hx)
  have hnum : numeral negative digits ≠ [] := by
    cases negative <;> simp [numeral, hne]
  have hsplit : (fixed negative digits).chars ++ rest =
      '|' :: (numeral negative digits ++ '|' :: rest) := by simp [chars]
  rw [hsplit]
  cases hread : Repeat.readInteger? (numeral negative digits) <;>
    simp [Repeat.decode, List.takeWhile_append_of_pos hbar, List.dropWhile_append_of_pos hbar,
      hnum, hread]

theorem decode_append {n : Count} (hn : n.Valid) {c : Char} (hc : c ≠ '|') (cs : List Char) :
    (n.Fits → Repeat.decode (n.chars ++ c :: cs) = .ok (n.times, c :: cs)) ∧
    (¬ n.Fits → Repeat.decode (n.chars ++ c :: cs) = .error .invalidCount) := by
  cases n with
  | absent =>
      refine ⟨fun _ => ?_, fun h => absurd trivial h⟩
      simp [chars, Repeat.decode, hc, times]
  | byCell =>
      refine ⟨fun _ => ?_, fun h => absurd trivial h⟩
      simp [chars, Repeat.decode, times]
  | fixed negative digits =>
      obtain ⟨hne, hd⟩ := hn
      obtain ⟨hfits, hnot⟩ := readInteger?_numeral negative hne hd
      rw [decode_fixed negative hne hd]
      constructor
      · intro h
        rw [hfits h]
        rfl
      · intro h
        rw [hnot h]

end Count

/-! ### Lexemes -/

/-- A word of the language. -/
inductive Lexeme where
  | command (scope : Scope) (count : Count) (command : Command)
  | terminator (cr lf : Bool)
  | comment (body : List Char)
  | blank (cs : List Char)
deriving DecidableEq, Repr

theorem Command.lexeme_eq_cons (c : Command) : ∃ x cs, c.lexeme = x :: cs ∧ x ≠ '\x27' ∧
    x ≠ '|' ∧ x ≠ '\r' ∧ x ≠ '\n' := by
  have h : ∀ c ∈ Command.all,
      c.lexeme.head?.any fun x => x ≠ '\x27' ∧ x ≠ '|' ∧ x ≠ '\r' ∧ x ≠ '\n' := by decide
  have hc := h c (Command.mem_all c)
  cases hl : c.lexeme with
  | nil => simp [hl] at hc
  | cons x cs => exact ⟨x, cs, rfl, by simpa [hl] using hc⟩

namespace Lexeme

/-- What a lexeme is read as. -/
def kind : Lexeme → Token.Kind
  | command .. => .command
  | terminator .. => .terminator
  | comment .. => .comment
  | blank .. => .blank

/-- The characters of a lexeme. -/
def chars : Lexeme → List Char
  | command s n c => s.chars ++ (n.chars ++ c.lexeme)
  | terminator cr lf =>
    ':' :: ((if cr then ['\r'] else []) ++ if lf then ['\n'] else [])
  | comment body => '"' :: (body ++ ['"'])
  | blank cs => cs

/-- What is needed of the parts of a lexeme. -/
def Valid : Lexeme → Prop
  | command s n c =>
    (s = .local → c.acceptsScope) ∧ (n ≠ .absent → c.acceptsRepeat) ∧ n.Valid
  | terminator .. => True
  | comment body => '"' ∉ body
  | blank cs => cs ≠ [] ∧ ∀ c ∈ cs, c ∈ [' ', '\t', '\x0b', '\x0c']

/-- The number in a count is an integer of 64 bits. -/
def Fits : Lexeme → Prop
  | command _ n _ => n.Fits
  | _ => True

theorem count_eq_absent {s : Scope} {n : Count} {c : Command} (h : (command s n c).Valid)
    (hc : c.acceptsRepeat = false) : n = .absent := by
  by_contra hne
  have hrepeat := h.2.1 hne
  rw [hc] at hrepeat
  exact Bool.false_ne_true hrepeat

theorem assemble_eq_ok {s : Scope} {n : Count} {c : Command} (h : (command s n c).Valid) :
    ∃ i, Instruction.assemble s n.times c = .ok i := by
  cases c with
  | act a => exact ⟨_, rfl⟩
  | perform o =>
      have hn : n = .absent := count_eq_absent h rfl
      subst hn
      exact ⟨_, rfl⟩
  | swap =>
      have hn : n = .absent := count_eq_absent h rfl
      subst hn
      cases s with
      | «local» => exact absurd (h.1 rfl) (by decide)
      | global => exact ⟨_, rfl⟩

theorem decode_scope (s : Scope) (n : Count) (c : Command) :
    Scope.decode (command s n c).chars = (s, n.chars ++ c.lexeme) := by
  obtain ⟨x, cs, hc, hmark, _⟩ := c.lexeme_eq_cons
  rw [chars, hc]
  cases s with
  | «local» => rfl
  | global =>
      cases n with
      | absent => simp [Scope.chars, Count.chars, Scope.decode, hmark]
      | byCell => rfl
      | fixed negative digits => rfl

/-- A written command is put together from its parts, if its number fits. -/
theorem decode_of_fits {n : Count} (hn : n.Valid) (hf : n.Fits) (s : Scope) (c : Command) :
    Instruction.decode (command s n c).chars = Instruction.assemble s n.times c := by
  obtain ⟨x, cs, hc, _, hbar, _⟩ := c.lexeme_eq_cons
  have hcount := (Count.decode_append hn hbar cs).1 hf
  rw [← hc] at hcount
  simp only [Instruction.decode, decode_scope, hcount, bind, Except.bind, Command.ofLexeme?_lexeme]

/-- A written command stands for an instruction, if its number fits. -/
theorem decode_chars {s : Scope} {n : Count} {c : Command} (h : (command s n c).Valid) :
    (n.Fits → ∃ i, Instruction.decode (command s n c).chars = .ok i) ∧
    (¬ n.Fits → Instruction.decode (command s n c).chars = .error .invalidCount) := by
  constructor
  · intro hf
    rw [decode_of_fits h.2.2 hf]
    exact assemble_eq_ok h
  · intro hf
    obtain ⟨x, cs, hc, _, hbar, _⟩ := c.lexeme_eq_cons
    have hcount := (Count.decode_append h.2.2 hbar cs).2 hf
    rw [← hc] at hcount
    simp only [Instruction.decode, decode_scope, hcount, bind, Except.bind]

/-! ### First characters -/

theorem chars_ne_nil {l : Lexeme} (hl : l.Valid) : l.chars ≠ [] := by
  cases l with
  | command s n c =>
      obtain ⟨x, cs, hc, _⟩ := c.lexeme_eq_cons
      simp [chars, hc]
  | terminator cr lf => simp [chars]
  | comment body => simp [chars]
  | blank cs => exact hl.1

/-- The first character of a lexeme tells its kind; an at sign begins one lexeme only. -/
theorem cases_of_chars_eq_cons {l : Lexeme} (hl : l.Valid) {x : Char} {t : List Char}
    (hx : l.chars = x :: t) :
    (∃ s n c, l = command s n c ∧
      x ∉ [':', '"', ' ', '\t', '\x0b', '\x0c', '\r', '\n'] ∧
      (x = '@' → l = command .global .absent (.perform (.closing .testLast)))) ∨
    (x = ':' ∧ ∃ cr lf, l = terminator cr lf) ∨
    (x = '"' ∧ ∃ body, l = comment body) ∨
    (x ∈ [' ', '\t', '\x0b', '\x0c'] ∧ ∃ cs, l = blank cs) := by
  cases l with
  | terminator cr lf =>
      refine .inr (.inl ⟨?_, cr, lf, rfl⟩)
      exact (List.cons.inj hx).1.symm
  | comment body =>
      refine .inr (.inr (.inl ⟨?_, body, rfl⟩))
      exact (List.cons.inj hx).1.symm
  | blank cs =>
      refine .inr (.inr (.inr ⟨?_, cs, rfl⟩))
      have hcs : cs = x :: t := hx
      exact hl.2 x (by simp [hcs])
  | command s n c =>
      refine .inl ⟨s, n, c, rfl, ?_⟩
      cases s with
      | «local» =>
          obtain ⟨rfl, _⟩ := List.cons.inj hx
          exact ⟨by decide, fun hat => absurd hat (by decide)⟩
      | global =>
          cases n with
          | byCell | fixed =>
              obtain ⟨rfl, _⟩ := List.cons.inj hx
              exact ⟨by decide, fun hat => absurd hat (by decide)⟩
          | absent =>
              have h : ∀ c ∈ Command.all, c.lexeme.head?.all fun x =>
                  x ∉ [':', '"', ' ', '\t', '\x0b', '\x0c', '\r', '\n'] ∧
                  (x = '@' → c = .perform (.closing .testLast)) := by decide
              have hlex : c.lexeme = x :: t := hx
              have hc := h c c.mem_all
              rw [hlex, List.head?_cons, Option.all_some, decide_eq_true_iff] at hc
              exact ⟨hc.1, fun hat => by rw [hc.2 hat]⟩

end Lexeme
end TwinTape
