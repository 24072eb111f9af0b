import TwinTape.Proofs.Places
import TwinTape.Proofs.Spelling

/-! # Lexer and decoder

Which marks may stand before which command is said twice: by the rules of the lexer, and by
`Instruction.decode`, which reads a single command.  They agree but for two things
(`commands_are_instructions`).

* A rule takes a number of any length.  The decoder then says that the count is invalid, and this
  is the only fault it finds in what a rule takes (`decode_of_overflows`).
* The decoder takes a plus sign before a number, and no rule does.  Any other text that it reads is
  a lexeme (`exists_lexeme_of_decode`), so the lexer takes it as one token. -/

namespace TwinTape

/-- The text begins, after an optional mark, with a number between bars that is no integer of 64
bits. -/
def CountOverflows (cs : List Char) : Prop :=
  ∃ (s : Scope) (negative : Bool) (digits rest : List Char),
    cs = s.chars ++ ((Count.fixed negative digits).chars ++ rest) ∧
      (Count.fixed negative digits).Valid ∧ ¬ (Count.fixed negative digits).Fits

/-- The count of the text, after an optional mark, begins with a plus sign. -/
def CountHasPlus (cs : List Char) : Prop :=
  ∃ (s : Scope) (rest : List Char), cs = s.chars ++ ('|' :: '+' :: rest)

namespace Instruction
variable {i : Instruction} {cs : List Char}

theorem decode_of_overflows (h : CountOverflows cs) : decode cs = .error .invalidCount := by
  obtain ⟨s, negative, digits, rest, rfl, ⟨hne, hd⟩, hfits⟩ := h
  have hscope : Scope.decode (s.chars ++ ((Count.fixed negative digits).chars ++ rest)) =
      (s, (Count.fixed negative digits).chars ++ rest) := by cases s <;> rfl
  have hcount := Count.decode_fixed negative hne hd rest
  rw [(Count.readInteger?_numeral negative hne hd).2 hfits] at hcount
  simp only [decode, hscope, hcount, bind, Except.bind]

/-- What is read as an instruction is a lexeme, unless its count begins with a plus sign. -/
theorem exists_lexeme_of_decode (h : decode cs = .ok i) (hplus : ¬ CountHasPlus cs) :
    ∃ n : Count, (Lexeme.command i.scope n i.command).Valid ∧
      (Lexeme.command i.scope n i.command).chars = cs := by
  obtain ⟨hscope, hrepeat, _⟩ := i.valid_lexeme
  obtain ⟨rest, rfl, hr⟩ := exists_of_decode h
  rcases Repeat.decode_cases hr with ⟨htimes, rfl⟩ | ⟨htimes, rfl⟩ |
    ⟨numeral, n, htimes, rfl, _, _, hn⟩
  · exact ⟨.absent, ⟨hscope, by simp, trivial⟩, rfl⟩
  · rw [htimes] at hrepeat
    exact ⟨.byCell, ⟨hscope, fun _ => hrepeat (by simp [Repeat.count]), trivial⟩, rfl⟩
  · rw [htimes] at hrepeat
    obtain ⟨negative, digits, hne, hd, _, rfl | rfl⟩ := Repeat.exists_of_readInteger? hn
    · have haccepts : i.command.acceptsRepeat := hrepeat (by simp [Repeat.count])
      refine ⟨.fixed negative digits, ⟨hscope, fun _ => haccepts, hne, hd⟩, ?_⟩
      simp [Lexeme.chars, Count.chars]
    · exact absurd ⟨i.scope, _, rfl⟩ hplus

end Instruction

namespace Lexer

/-- The tokens of a text, up to a fault if there is one, are lexemes. -/
theorem exists_lexeme_of_mem_scan {source text : String} {t : Token}
    (ht : t ∈ (ofText source text).scan.1) :
    ∃ l : Lexeme, l.Valid ∧ l.kind = t.kind ∧ l.chars = t.lexeme := by
  obtain ⟨ls, rest, h⟩ := exists_reads text.toList
  obtain ⟨hstuck, hend⟩ := scan_of_reads (ofText source text) rfl h
  have hscan : (ofText source text).scan.1 = tokensAt .start ls := by
    by_cases hs : Stuck rest
    · rw [hstuck hs]
      rfl
    · obtain ⟨last, hlast, _⟩ := hend hs
      rw [hlast]
      rfl
  rw [hscan] at ht
  obtain ⟨before, after, hsplit⟩ := List.append_of_mem ht
  obtain ⟨ls₁, l, ls₂, rfl, _, rfl⟩ := exists_lexeme_of_tokensAt hsplit
  exact ⟨l, h.valid l (by simp), rfl, rfl⟩

theorem tokens_of_lexeme (source : String) {text : String} {l : Lexeme} (hl : l.Valid)
    (hc : l.Closed []) (htext : l.chars = text.toList) :
    (ofText source text).tokens = .ok [⟨l.kind, text.toList, .start⟩] := by
  have hreads : Reads text.toList [l] [] := by
    have h := Reads.take_closed hl hc (.stop rfl)
    rwa [List.append_nil, htext] at h
  rw [(tokens_of_reads source hreads).2 (not_stuck_of_isTail (.inl rfl)), tokensAt, htext]
  rfl

/-- **Lexer and decoder agree on commands.**  A command that the lexer finds in any text stands for
an instruction, or else its count is no integer of 64 bits and that is the fault.  A text that
stands for an instruction is one token if its count does not begin with a plus sign. -/
theorem commands_are_instructions :
    (∀ source text, ∀ t ∈ (ofText source text).scan.1, t.kind = .command →
      ((∃ i, Instruction.decode t.lexeme = .ok i) ∧ ¬ CountOverflows t.lexeme) ∨
      (Instruction.decode t.lexeme = .error .invalidCount ∧ CountOverflows t.lexeme)) ∧
    ∀ (source text : String) (i : Instruction), Instruction.decode text.toList = .ok i →
      ¬ CountHasPlus text.toList →
      (ofText source text).tokens = .ok [⟨.command, text.toList, .start⟩] := by
  constructor
  · intro source text t ht hkind
    obtain ⟨l, hl, hlkind, hchars⟩ := exists_lexeme_of_mem_scan ht
    rw [hkind] at hlkind
    cases l with
    | terminator | comment | blank => contradiction
    | command s n c =>
        obtain ⟨hok, herror⟩ := Lexeme.decode_chars hl
        rw [hchars] at hok herror
        by_cases hfits : n.Fits
        · obtain ⟨i, hi⟩ := hok hfits
          refine .inl ⟨⟨i, hi⟩, fun hover => ?_⟩
          rw [Instruction.decode_of_overflows hover] at hi
          contradiction
        · refine .inr ⟨herror hfits, ?_⟩
          cases n with
          | absent | byCell => exact absurd trivial hfits
          | fixed negative digits =>
              exact ⟨s, negative, digits, c.lexeme, hchars.symm, hl.2.2, hfits⟩
  · intro source text i hi hplus
    obtain ⟨n, hl, hchars⟩ := Instruction.exists_lexeme_of_decode hi hplus
    exact tokens_of_lexeme source hl (by simp [Lexeme.Closed]) hchars

/-- In a text that gets stuck at its end, the lexer finds a command with a number that is one too
large for the decoder; a number with zeros too many is read by both. -/
theorem commands_are_instructions_tooLarge :
    Instruction.decode "'|9223372036854775808|>".toList = .error .invalidCount ∧
    CountOverflows "'|9223372036854775808|>".toList ∧
    (ofText "demo" "|-007|!").tokens = .ok [⟨.command, "|-007|!".toList, .start⟩] := by
  obtain ⟨hcommands, hinstructions⟩ := commands_are_instructions
  have hmem : ⟨.command, "'|9223372036854775808|>".toList, ⟨1, 2⟩⟩ ∈
      (ofText "demo" ":'|9223372036854775808|>?").scan.1 := by decide +kernel
  have hdecode : Instruction.decode "|-007|!".toList =
      .ok (.act .global (.times (-7)) .increment) := by decide +kernel
  have hplus : ¬ CountHasPlus "|-007|!".toList := by
    rintro ⟨s, rest, h⟩
    cases s <;> simp [Scope.chars] at h
  have hfault : ¬ ((∃ i, Instruction.decode "'|9223372036854775808|>".toList = .ok i) ∧
      ¬ CountOverflows "'|9223372036854775808|>".toList) := by
    rintro ⟨⟨i, hi⟩, _⟩
    rw [show Instruction.decode "'|9223372036854775808|>".toList = .error .invalidCount by
      decide +kernel] at hi
    contradiction
  obtain ⟨herror, hover⟩ := (hcommands _ _ _ hmem rfl).resolve_left hfault
  exact ⟨herror, hover, hinstructions "demo" _ _ hdecode hplus⟩

end Lexer
end TwinTape
