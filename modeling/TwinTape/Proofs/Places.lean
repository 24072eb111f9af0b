import TwinTape.Proofs.Compile
import Mathlib.Data.List.DropRight
import Mathlib.Data.List.Forall2

/-! # Places of tokens and instructions

The lexer carries its place along and moves it by one lexeme at a time.  What it arrives at is read
off the text before it: the line is one more than the number of line feeds, the column one more than
the number of characters after the last of them (`advance_start`).  Places grow along a text
(`lt_advance`), so a place tells where in the text it is (`Begins.unique`).

The lexemes of the tokens are the text, up to a comment that does not close, and every token has the
place of its first character.  The places of a program grow from one instruction to the next, and at
each of them stands a command that decodes to the instruction (`places_exact`). -/

namespace TwinTape

/-! ### Places -/

namespace Position
variable {p q r : Position} {text before rest rest' : List Char}

/-- The place after a text, by its line feeds. -/
def after (text : List Char) : Position :=
  ⟨1 + text.count '\n', 1 + (text.rtakeWhile (· ≠ '\n')).length⟩

theorem after_concat (text : List Char) (c : Char) : after (text ++ [c]) = (after text).step c := by
  by_cases hc : c = '\n'
  · subst hc
    simp [after, step, Nat.add_assoc]
  · simp [after, step, hc, Nat.add_assoc]

theorem advance_start (text : List Char) : start.advance text = after text := by
  induction text using List.reverseRecOn with
  | nil => rfl
  | append_singleton text c ih => rw [advance_append, ih, after_concat, advance_cons, advance_nil]

theorem advance_after (before text : List Char) :
    (after before).advance text = after (before ++ text) := by
  rw [← advance_start, ← advance_start, advance_append]

/-- Places are ordered by line, and in one line by column. -/
instance : LT Position := ⟨fun p q => p.line < q.line ∨ p.line = q.line ∧ p.column < q.column⟩

theorem lt_iff : p < q ↔ p.line < q.line ∨ p.line = q.line ∧ p.column < q.column := Iff.rfl

theorem lt_irrefl (p : Position) : ¬ p < p := by
  rw [lt_iff]
  omega

theorem lt_trans (hpq : p < q) (hqr : q < r) : p < r := by
  rw [lt_iff] at *
  omega

theorem lt_step (p : Position) (c : Char) : p < p.step c := by
  rw [lt_iff, step]
  split <;> simp

theorem lt_advance (p : Position) (h : text ≠ []) : p < p.advance text := by
  induction text generalizing p with
  | nil => exact absurd rfl h
  | cons c text ih =>
      rw [advance_cons]
      by_cases ht : text = []
      · rw [ht]
        exact p.lt_step c
      · exact lt_trans (p.lt_step c) (ih _ ht)

/-- What begins at a place of a text. -/
def Begins (text : List Char) (p : Position) (rest : List Char) : Prop :=
  ∃ before, text = before ++ rest ∧ p = after before

/-- A place tells what begins there. -/
theorem Begins.unique (h : Begins text p rest) (h' : Begins text p rest') : rest = rest' := by
  have hsame : ∀ before t : List Char, after before = after (before ++ t) → t = [] := by
    intro before t ht
    by_contra hne
    rw [← advance_start, ← advance_start, advance_append] at ht
    have hlt := (start.advance before).lt_advance hne
    rw [← ht] at hlt
    exact lt_irrefl _ hlt
  obtain ⟨before, rfl, rfl⟩ := h
  obtain ⟨before', htext, hafter⟩ := h'
  rcases List.append_eq_append_iff.1 htext with ⟨t, rfl, ht⟩ | ⟨t, rfl, ht⟩
  · rw [ht, hsame _ _ hafter, List.nil_append]
  · rw [ht, hsame _ _ hafter.symm, List.nil_append]

end Position

/-! ### Tokens -/

variable {text rest : List Char} {ls : List Lexeme}

theorem flatMap_tokensAt (p : Position) (ls : List Lexeme) :
    (tokensAt p ls).flatMap Token.lexeme = spell ls := by
  induction ls generalizing p with
  | nil => rfl
  | cons l ls ih => rw [tokensAt, List.flatMap_cons, ih, spell_cons]

theorem exists_lexeme_of_tokensAt {p : Position} {before after : List Token} {t : Token}
    (h : tokensAt p ls = before ++ t :: after) :
    ∃ ls₁ l ls₂, ls = ls₁ ++ l :: ls₂ ∧ spell ls₁ = before.flatMap Token.lexeme ∧
      t = ⟨l.kind, l.chars, p.advance (spell ls₁)⟩ := by
  induction before generalizing p ls with
  | nil =>
      cases ls with
      | nil => simp [tokensAt] at h
      | cons l ls =>
          obtain ⟨ht, _⟩ := List.cons.inj h
          exact ⟨[], l, ls, rfl, rfl, ht.symm⟩
  | cons b before ih =>
      cases ls with
      | nil => simp [tokensAt] at h
      | cons l ls =>
          obtain ⟨hb, hrest⟩ := List.cons.inj h
          obtain ⟨ls₁, l', ls₂, rfl, hspell, ht⟩ := ih hrest
          refine ⟨l :: ls₁, l', ls₂, rfl, ?_, ?_⟩
          · rw [spell_cons, hspell, ← hb, List.flatMap_cons]
          · rw [ht, spell_cons, Position.advance_append]

theorem lt_position_of_mem {p q : Position} {t : Token} (hqp : q < p)
    (ht : t ∈ tokensAt p ls) : q < t.position := by
  obtain ⟨before, after, hsplit⟩ := List.append_of_mem ht
  obtain ⟨ls₁, l, _, _, _, rfl⟩ := exists_lexeme_of_tokensAt hsplit
  by_cases hne : spell ls₁ = []
  · rwa [hne]
  · exact Position.lt_trans hqp (p.lt_advance hne)

theorem pairwise_tokensAt (p : Position) (hv : ∀ l ∈ ls, l.Valid) :
    (tokensAt p ls).Pairwise fun t u => t.position < u.position := by
  induction ls generalizing p with
  | nil => exact .nil
  | cons l ls ih =>
      obtain ⟨hl, hv'⟩ := List.forall_mem_cons.1 hv
      refine .cons (fun u hu => ?_) (ih _ hv')
      exact lt_position_of_mem (p.lt_advance (Lexeme.chars_ne_nil hl)) hu

theorem Reads.firstMatch_of_split {ls₁ ls₂ : List Lexeme} {l : Lexeme}
    (h : Reads text (ls₁ ++ l :: ls₂) rest) :
    ∃ t, text = spell ls₁ ++ (l.chars ++ t) ∧
      Rule.firstMatch Rule.grammar (l.chars ++ t) = some (l.kind, l.chars.length) := by
  induction ls₁ generalizing text with
  | nil =>
      cases h with
      | take _ hm hrest => exact ⟨_, rfl, hm⟩
  | cons l' ls₁ ih =>
      cases h with
      | take _ _ hrest =>
          obtain ⟨t, ht, hm⟩ := ih hrest
          exact ⟨t, by rw [ht, spell_cons, List.append_assoc], hm⟩

/-- A token begins at its place, and is what the rules take there. -/
theorem Reads.begins_of_mem (h : Reads text ls rest) {t : Token} (ht : t ∈ tokensAt .start ls) :
    ∃ later, Position.Begins text t.position (t.lexeme ++ later) ∧
      Rule.firstMatch Rule.grammar (t.lexeme ++ later) = some (t.kind, t.lexeme.length) := by
  obtain ⟨before, after, hsplit⟩ := List.append_of_mem ht
  obtain ⟨ls₁, l, ls₂, rfl, _, rfl⟩ := exists_lexeme_of_tokensAt hsplit
  obtain ⟨later, htext, hmatch⟩ := h.firstMatch_of_split
  exact ⟨later, ⟨spell ls₁, htext, Position.advance_start _⟩, hmatch⟩

/-- The tokens of a text: nothing is lost, and each has the place of its first character. -/
structure Lossless (text : List Char) (tokens : List Token) : Prop where
  lexeme_ne_nil : ∀ t ∈ tokens, t.lexeme ≠ []
  /-- The lexemes in a row are the text, up to a quote without a second one. -/
  spelled : ∃ tail, text = tokens.flatMap Token.lexeme ++ tail ∧
    (tail = [] ∨ ∃ body, tail = '"' :: body ∧ '"' ∉ body)
  /-- The place of a token is that after the text before it. -/
  position : ∀ before t after, tokens = before ++ t :: after →
    t.position = Position.after (before.flatMap Token.lexeme)

theorem Reads.lossless (h : Reads text ls rest) (hs : ¬ Stuck rest) :
    Lossless text (tokensAt .start ls) where
  lexeme_ne_nil := by
    intro t ht
    obtain ⟨before, after, hsplit⟩ := List.append_of_mem ht
    obtain ⟨ls₁, l, ls₂, rfl, _, rfl⟩ := exists_lexeme_of_tokensAt hsplit
    exact Lexeme.chars_ne_nil (h.valid l (by simp))
  spelled := by
    refine ⟨rest, ?_, isTail_of_firstMatch h.firstMatch_rest hs⟩
    rw [flatMap_tokensAt, h.text_eq]
  position := by
    intro before t after hsplit
    obtain ⟨ls₁, l, ls₂, _, hspell, rfl⟩ := exists_lexeme_of_tokensAt hsplit
    rw [← hspell, ← Position.advance_start]

theorem Lexer.tokens_of_reads (source : String) {text : String} (h : Reads text.toList ls rest) :
    (Stuck rest → ∃ fault, (ofText source text).tokens = .error fault) ∧
    (¬ Stuck rest → (ofText source text).tokens = .ok (tokensAt .start ls)) := by
  obtain ⟨hstuck, hend⟩ := scan_of_reads (ofText source text) rfl h
  constructor
  · intro hs
    rw [tokens, hstuck hs]
    exact ⟨_, rfl⟩
  · intro hs
    obtain ⟨last, hscan, _⟩ := hend hs
    rw [tokens, hscan]
    rfl

/-! ### Instructions -/

namespace Program
variable {source : String} {tokens : List Token} {code : List Placed}

/-- The places of the instructions. -/
def positions (p : Program) : List Position := p.code.map (·.position)

/-- A token is written for an instruction. -/
def Decodes (t : Token) (placed : Placed) : Prop :=
  Instruction.decode t.lexeme = .ok placed.instruction ∧ t.position = placed.position

/-- The code is what the commands stand for, one by one and each at its place. -/
theorem decodes_of_decodeTokens (h : decodeTokens source tokens = .ok code) :
    List.Forall₂ Decodes (tokens.filter (·.kind = .command)) code := by
  induction tokens generalizing code with
  | nil =>
      cases h
      exact .nil
  | cons t ts ih =>
      by_cases hk : t.kind = .command
      · rw [List.filter_cons_of_pos (by simpa using hk)]
        rw [decodeTokens, if_pos hk] at h
        cases hi : Instruction.decode t.lexeme with
        | error fault => simp [hi] at h
        | ok i =>
            cases hrest : decodeTokens source ts with
            | error fault => simp [hi, hrest, Except.map] at h
            | ok rest =>
                simp only [hi, hrest, Except.map, Except.ok.injEq] at h
                subst h
                exact .cons ⟨hi, rfl⟩ (ih hrest)
      · rw [List.filter_cons_of_neg (by simpa using hk)]
        rw [decodeTokens, if_neg hk] at h
        exact ih h

/-- Code grows in its places as the commands do. -/
theorem map_position_of_decodes (h : List.Forall₂ Decodes tokens code) :
    code.map (·.position) = tokens.map (·.position) := by
  induction h with
  | nil => rfl
  | cons hd _ ih => rw [List.map_cons, List.map_cons, ih, hd.2]

theorem exists_token_of_decodes (h : List.Forall₂ Decodes tokens code) {address : ℕ}
    {placed : Placed} (hp : code[address]? = some placed) : ∃ t ∈ tokens, Decodes t placed := by
  obtain ⟨hlt, rfl⟩ := List.getElem?_eq_some_iff.1 hp
  have hlt' : address < tokens.length := by rwa [h.length_eq]
  exact ⟨tokens.get ⟨address, hlt'⟩, List.get_mem _ _, h.get hlt' hlt⟩

/-- The program of a text and its tokens: the instructions stand where they are said to. -/
structure WrittenIn (text : List Char) (tokens : List Token) (p : Program) : Prop where
  /-- The instructions are those of the commands, one by one. -/
  decoded : List.Forall₂ Decodes (tokens.filter (·.kind = .command)) p.code
  length : p.positions.length = p.instructions.length
  increasing : p.positions.Pairwise (· < ·)
  /-- At the place of an instruction, and nowhere else, begins a text whose first token is a
  command that decodes to it. -/
  written : ∀ address i, p.instruction? address = some i →
    ∃ rest n, Position.Begins text (p.position address) rest ∧
      (∀ rest', Position.Begins text (p.position address) rest' → rest' = rest) ∧
      Rule.firstMatch Rule.grammar rest = some (.command, n) ∧
      Instruction.decode (rest.take n) = .ok i

theorem writtenIn_of_decodeTokens (h : Reads text ls rest)
    (hcode : decodeTokens source (tokensAt .start ls) = .ok code) :
    WrittenIn text (tokensAt .start ls) (ofCode source code) := by
  have hdecodes := decodes_of_decodeTokens hcode
  refine ⟨hdecodes, ?_, ?_, ?_⟩
  · rw [positions, instructions, List.length_map, List.length_map]
  · have hpositions : (ofCode source code).positions = _ := map_position_of_decodes hdecodes
    rw [hpositions, List.pairwise_map]
    exact (pairwise_tokensAt .start h.valid).filter _
  · intro address i hi
    obtain ⟨placed, hplaced, rfl⟩ := Option.map_eq_some_iff.1 hi
    obtain ⟨t, ht, hdecode, hpos⟩ := exists_token_of_decodes hdecodes hplaced
    obtain ⟨hmem, hkind⟩ := List.mem_filter.1 ht
    obtain ⟨later, hbegins, hmatch⟩ := h.begins_of_mem hmem
    have hposition : (ofCode source code).position address = t.position := by
      rw [position, hplaced, hpos]
    rw [hposition]
    refine ⟨_, t.lexeme.length, hbegins, fun _ h' => h'.unique hbegins, ?_, ?_⟩
    · rw [hmatch, of_decide_eq_true hkind]
    · rw [List.take_left, hdecode]

/-- **Nothing of a text is lost and places are exact**: the tokens are the text, each at the place
of its first character, and the instructions of a program stand at their places. -/
theorem places_exact (source text : String) :
    (∀ tokens, (Lexer.ofText source text).tokens = .ok tokens → Lossless text.toList tokens) ∧
    ∀ p, compile source text = .ok p →
      ∃ tokens, (Lexer.ofText source text).tokens = .ok tokens ∧
        WrittenIn text.toList tokens p := by
  obtain ⟨ls, rest, h⟩ := exists_reads text.toList
  obtain ⟨hfault, htokens⟩ := Lexer.tokens_of_reads source h
  by_cases hs : Stuck rest
  · constructor
    · intro tokens hok
      obtain ⟨fault, hf⟩ := hfault hs
      rw [hf] at hok
      contradiction
    · intro p hok
      rw [compile_of_stuck h hs] at hok
      contradiction
  · constructor
    · intro tokens hok
      rw [htokens hs] at hok
      cases hok
      exact h.lossless hs
    · intro p hok
      refine ⟨_, htokens hs, ?_⟩
      by_cases hl : EndsTerminated ls
      · rw [(compile_of_not_stuck h hs).2 hl] at hok
        cases hcode : decodeTokens source (tokensAt .start ls) with
        | error fault => simp [hcode, Except.map] at hok
        | ok code =>
            simp only [hcode, Except.map, Except.ok.injEq] at hok
            subst hok
            exact writtenIn_of_decodeTokens h hcode
      · rw [(compile_of_not_stuck h hs).1 hl] at hok
        contradiction

/-- A comment of two lines, a command after it, a terminator of three characters and a second
command. -/
theorem places_exact_three_lines :
    let text := "\"é\n\"'|-2|+:\r\n!:"
    let p := ofCode "demo" [⟨.act .local (.times (-2)) .add, ⟨2, 2⟩⟩,
      ⟨.act .global .once .increment, ⟨3, 1⟩⟩]
    compile "demo" text = .ok p ∧
    ∃ tokens, (Lexer.ofText "demo" text).tokens = .ok tokens ∧ Lossless text.toList tokens ∧
      WrittenIn text.toList tokens p := by
  intro text p
  have hcompile : compile "demo" text = .ok p := by decide +kernel
  obtain ⟨hlossless, hwritten⟩ := places_exact "demo" text
  obtain ⟨tokens, htokens, hp⟩ := hwritten p hcompile
  exact ⟨hcompile, tokens, htokens, hlossless tokens htokens, hp⟩

end Program
end TwinTape
