import TwinTape.Proofs.Places
import Mathlib.Logic.Function.Iterate

/-! # Where a lexer stands

A lexer that is `Reached` from the start of a text stands after some of the lexemes that the rules
take from it, or at the end of the text (`Reached.standing`).  So a lexer that fails stands at the
first character that no rule takes, and it stays there; one that is at the end stays at the end; and
a comment that does not close is entered only on the way to the end (`reached_steady`).

Inside `next` the lexer may take several turns, and `Takes lexer turns result` lists the lexers at
the start of each.  There are three of them at most: a quote that no rule takes, the text after it,
the end. -/

namespace TwinTape

namespace Lexer
variable {source text : String} {lexer next : Lexer} {turns : List Lexer}
  {result : Except Fault (Option Token) × Lexer}

/-! ### Turns -/

/-- One turn of `next`: it goes on from another place, or has a result. -/
def turn (lexer : Lexer) : Lexer ⊕ (Except Fault (Option Token) × Lexer) :=
  match lexer.rest with
  | [] => .inr (.ok none, lexer)
  | c :: _ =>
    if lexer.quoted then .inl lexer.skipComment
    else match Rule.firstMatch Rule.grammar lexer.rest with
      | some (kind, n) => .inr (.ok (some (lexer.token kind n)), lexer.skip n)
      | none =>
        if c = '"' then .inl lexer.openComment
        else .inr
          (.error ((Fault.noCommandMatches.located lexer.position).inSource lexer.source), lexer)

/-- The lexers at the start of each turn, and the result of the last one. -/
inductive Takes : Lexer → List Lexer → Except Fault (Option Token) × Lexer → Prop
  | last {lexer : Lexer} {result : Except Fault (Option Token) × Lexer} :
      lexer.turn = .inr result → Takes lexer [lexer] result
  | again {lexer next : Lexer} {turns : List Lexer}
      {result : Except Fault (Option Token) × Lexer} :
      lexer.turn = .inl next → Takes next turns result → Takes lexer (lexer :: turns) result

theorem next_eq_turn (lexer : Lexer) :
    lexer.next = match lexer.turn with
      | .inl later => later.next
      | .inr result => result := by
  unfold Lexer.next turn
  rw [nextWith]
  split
  · rename_i hr
    rw [hr]
  · rename_i c t hr
    dsimp only
    rw [hr]
    dsimp only
    by_cases hq : lexer.quoted = true
    · rw [if_pos hq, if_pos hq]
    · rw [if_neg hq, if_neg hq]
      cases Rule.firstMatch Rule.grammar (c :: t) with
      | some p => rfl
      | none =>
          dsimp only
          by_cases hc : c = '"'
          · rw [if_pos hc, if_pos hc]
          · rw [if_neg hc, if_neg hc]

/-- The result of the turns is that of `next`. -/
theorem Takes.next_eq (h : lexer.Takes turns result) : lexer.next = result := by
  induction h with
  | last h => rw [next_eq_turn, h]
  | again h _ ih =>
      rw [next_eq_turn, h]
      exact ih

theorem turn_of_end (h : lexer.rest = []) : lexer.turn = .inr (.ok none, lexer) := by
  unfold turn
  rw [h]

theorem turn_of_match (hq : lexer.quoted = false) {k : Token.Kind} {n : ℕ}
    (h : Rule.firstMatch Rule.grammar lexer.rest = some (k, n)) :
    lexer.turn = .inr (.ok (some (lexer.token k n)), lexer.skip n) := by
  obtain ⟨hpos, hle⟩ := Rule.firstMatch_bounds h
  unfold turn
  cases hr : lexer.rest with
  | nil =>
      rw [hr, List.length_nil] at hle
      omega
  | cons c t =>
      rw [hr] at h
      simp [hq, h]

theorem turn_of_stuck (hq : lexer.quoted = false)
    (h : Rule.firstMatch Rule.grammar lexer.rest = none) (hs : Stuck lexer.rest) :
    lexer.turn = .inr
      (.error ((Fault.noCommandMatches.located lexer.position).inSource lexer.source), lexer) := by
  obtain ⟨c, t, hr, hc⟩ := hs
  rw [hr] at h
  simp [turn, hr, hq, h, hc]

theorem turn_of_quote (hq : lexer.quoted = false)
    (h : Rule.firstMatch Rule.grammar lexer.rest = none) {body : List Char}
    (hr : lexer.rest = '"' :: body) : lexer.turn = .inl lexer.openComment := by
  rw [hr] at h
  simp [turn, hr, hq, h]

theorem turn_of_quoted (hq : lexer.quoted = true) (h : lexer.rest ≠ []) :
    lexer.turn = .inl lexer.skipComment := by
  unfold turn
  cases hr : lexer.rest with
  | nil => exact absurd hr h
  | cons c t => exact if_pos hq

/-! ### Places where a lexer can stand -/

/-- The lexer stands after some of the lexemes of a text, or at its end. -/
inductive Standing (source : String) (text : List Char) : Lexer → Prop
  | within {before after : List Lexeme} {rest : List Char} :
      Reads text (before ++ after) rest →
      Standing source text ⟨source, spell after ++ rest, .after (spell before), false⟩
  | finished (quoted : Bool) : Standing source text ⟨source, [], .after text, quoted⟩

/-- What a lexer does in one call of `next`. -/
structure Conduct (source : String) (text : List Char) (lexer : Lexer) (turns : List Lexer)
    (result : Except Fault (Option Token) × Lexer) : Prop where
  takes : lexer.Takes turns result
  length : turns.length ≤ 3
  /-- No turn inside a comment finds a quote. -/
  unclosed : ∀ x ∈ turns, x.quoted = true → '"' ∉ x.rest
  standing : Standing source text result.2
  /-- A failure leaves the lexer where it is, at the first character that no rule takes. -/
  failed : ∀ fault, result.1 = .error fault → result.2 = lexer ∧
    fault = (Fault.noCommandMatches.located lexer.position).inSource source ∧
    ∃ ls, Reads text ls lexer.rest ∧ Stuck lexer.rest ∧ lexer.position = .after (spell ls)
  /-- At the end nothing is left. -/
  ended : result.1 = .ok none → result.2.rest = []

section conduct
variable {text rest body : List Char} {before after ls : List Lexeme} {l : Lexeme}

theorem conduct_of_end {last : Lexer} (htakes : lexer.Takes turns (.ok none, last))
    (hlength : turns.length ≤ 3) (hunclosed : ∀ x ∈ turns, x.quoted = true → '"' ∉ x.rest)
    (hlast : ∃ quoted, last = ⟨source, [], .after text, quoted⟩) :
    Conduct source text lexer turns (.ok none, last) := by
  obtain ⟨quoted, rfl⟩ := hlast
  refine ⟨htakes, hlength, hunclosed, .finished quoted, ?_, fun _ => rfl⟩
  intro fault hf
  contradiction

theorem conduct_of_lexeme (source : String) (h : Reads text (before ++ l :: after) rest)
    (hlexer : lexer = ⟨source, spell (l :: after) ++ rest, .after (spell before), false⟩) :
    ∃ result, Conduct source text lexer [lexer] result := by
  have hrest : lexer.rest = l.chars ++ (spell after ++ rest) := by
    rw [hlexer, spell_cons, List.append_assoc]
  have hmatch : Rule.firstMatch Rule.grammar lexer.rest = some (l.kind, l.chars.length) := by
    obtain ⟨t, ht, hm⟩ := h.firstMatch_of_split
    have hsplit : spell before ++ (l.chars ++ t) = spell before ++ lexer.rest := by
      rw [← ht, h.text_eq, hlexer, spell_append, List.append_assoc]
    rwa [List.append_cancel_left hsplit] at hm
  have hskip : lexer.skip l.chars.length =
      ⟨source, spell after ++ rest, .after (spell (before ++ [l])), false⟩ := by
    have hspell : spell (before ++ [l]) = spell before ++ l.chars := by simp [spell_append]
    unfold skip
    rw [hrest, List.drop_left, List.take_left, hlexer, hspell, Position.advance_after]
  have hquoted : lexer.quoted = false := by rw [hlexer]
  refine ⟨_, .last (turn_of_match hquoted hmatch), by simp, ?_, ?_, ?_, ?_⟩
  · intro x hx hq
    rw [List.mem_singleton.1 hx, hquoted] at hq
    contradiction
  · rw [hskip]
    exact .within (by simpa using h)
  · simp
  · simp

theorem conduct_of_stuck (source : String) (h : Reads text ls rest) (hs : Stuck rest)
    (hlexer : lexer = ⟨source, rest, .after (spell ls), false⟩) :
    ∃ result, Conduct source text lexer [lexer] result := by
  subst hlexer
  refine ⟨_, .last (turn_of_stuck rfl h.firstMatch_rest hs), by simp, by simp, ?_, ?_, by simp⟩
  · have hstanding : Reads text (ls ++ []) rest := by rwa [List.append_nil]
    exact .within hstanding
  · intro fault hf
    exact ⟨rfl, (Except.error.inj hf).symm, ls, h, hs, rfl⟩

theorem conduct_of_quote (h : Reads text ls ('"' :: body)) (hbody : '"' ∉ body)
    (hlexer : lexer = ⟨source, '"' :: body, .after (spell ls), false⟩) :
    ∃ turns result, Conduct source text lexer turns result := by
  have hend : ((Position.after (spell ls)).advance ['"']).advance body = .after text := by
    rw [← Position.advance_append, Position.advance_after, h.text_eq]
    rfl
  generalize hplace : (Position.after (spell ls)).advance ['"'] = place at hend
  have hfirst : lexer.turn = .inl ⟨source, body, place, true⟩ := by
    subst hlexer hplace
    exact turn_of_quote rfl h.firstMatch_rest rfl
  have hquoted : lexer.quoted = false := by rw [hlexer]
  by_cases hnil : body = []
  · subst hnil
    refine ⟨_, _, conduct_of_end (.again hfirst (.last (turn_of_end rfl))) (by simp) ?_
      ⟨true, by rw [← hend]; rfl⟩⟩
    simp [hquoted]
  · have huntil : untilQuote ⟨source, body, place, true⟩ = body.length := by
      rw [untilQuote, List.takeWhile_eq_self_iff.2]
      intro x hx
      apply bne_iff_ne.2
      rintro rfl
      exact hbody hx
    have hlast : skipComment ⟨source, body, place, true⟩ = ⟨source, [], .after text, true⟩ := by
      unfold skipComment skip
      rw [huntil, List.drop_eq_nil_of_le (Nat.le_succ _), List.take_of_length_le (Nat.le_succ _),
        hend, BEq.rfl]
    have hsecond : turn ⟨source, body, place, true⟩ = .inl ⟨source, [], .after text, true⟩ := by
      rw [← hlast]
      exact turn_of_quoted rfl hnil
    refine ⟨_, _, conduct_of_end (.again hfirst (.again hsecond (.last (turn_of_end rfl))))
      (by simp) ?_ ⟨true, rfl⟩⟩
    simp [hquoted, hbody]

/-- A lexer that stands at a place of a text conducts itself well, and comes to stand at another. -/
theorem Standing.conduct (h : Standing source text lexer) :
    ∃ turns result, Conduct source text lexer turns result := by
  cases h with
  | finished quoted =>
      refine ⟨_, _, conduct_of_end (.last (turn_of_end rfl)) (by simp) (by simp) ⟨quoted, rfl⟩⟩
  | @within before after rest h =>
      cases after with
      | cons l after =>
          obtain ⟨result, hresult⟩ := conduct_of_lexeme source h rfl
          exact ⟨_, result, hresult⟩
      | nil =>
          rw [List.append_nil] at h
          by_cases hs : Stuck rest
          · obtain ⟨result, hresult⟩ := conduct_of_stuck source h hs rfl
            exact ⟨_, result, hresult⟩
          · rcases isTail_of_firstMatch h.firstMatch_rest hs with rfl | ⟨body, rfl, hbody⟩
            · have htext : text = spell before := by rw [h.text_eq, List.append_nil]
              refine ⟨_, _, conduct_of_end (.last (turn_of_end rfl)) (by simp) (by simp)
                ⟨false, ?_⟩⟩
              rw [htext]
              rfl
            · exact conduct_of_quote h hbody rfl

end conduct

/-! ### Lexers of a text -/

/-- The lexers that come from the start of a text by calls of `next`.  A copy of a lexer is the same
lexer, so copies are among them. -/
inductive Reached (source text : String) : Lexer → Prop
  | new : Reached source text (ofText source text)
  | next {lexer : Lexer} : Reached source text lexer → Reached source text lexer.next.2

theorem Reached.standing (h : Reached source text lexer) :
    Standing source text.toList lexer := by
  induction h with
  | new =>
      obtain ⟨ls, rest, h⟩ := exists_reads text.toList
      have hnew : ofText source text = ⟨source, spell ls ++ rest, .after (spell []), false⟩ := by
        rw [ofText, h.text_eq]
        rfl
      rw [hnew]
      exact .within (by simpa using h)
  | next _ ih =>
      obtain ⟨turns, result, hconduct⟩ := ih.conduct
      rw [hconduct.takes.next_eq]
      exact hconduct.standing

theorem Standing.exists_read {text : List Char} (h : Standing source text lexer) :
    ∃ read, text = read ++ lexer.rest ∧ lexer.position = .after read ∧ lexer.source = source ∧
      (lexer.quoted = true → lexer.rest = []) := by
  cases h with
  | finished quoted => exact ⟨text, by simp, rfl, rfl, fun _ => rfl⟩
  | @within before after rest h =>
      refine ⟨spell before, ?_, rfl, rfl, by simp⟩
      rw [h.text_eq, spell_append, List.append_assoc]

/-- Number of bytes of the text before the place of a lexer. -/
def offset (text : String) (lexer : Lexer) : String.Pos.Raw :=
  ⟨text.utf8ByteSize - (String.ofList lexer.rest).utf8ByteSize⟩

theorem Standing.offset_isValid (h : Standing source text.toList lexer) :
    (lexer.offset text).IsValid text := by
  obtain ⟨read, htext, -⟩ := h.exists_read
  have happend : text = String.ofList read ++ String.ofList lexer.rest := by
    rw [← String.ofList_append, ← htext, String.ofList_toList]
  apply String.Pos.Raw.isValid_iff_exists_append.2
  refine ⟨_, _, happend, ?_⟩
  have hsize : text.utf8ByteSize =
      (String.ofList read).utf8ByteSize + (String.ofList lexer.rest).utf8ByteSize := by
    rw [happend, String.utf8ByteSize_append]
  unfold offset
  rw [hsize, Nat.add_sub_cancel]
  rfl

/-- The lexer after some calls of `next`. -/
def after (calls : ℕ) (lexer : Lexer) : Lexer := (fun x => (Lexer.next x).2)^[calls] lexer

/-- A lexer that one call leaves where it is stays there. -/
theorem after_of_next_eq (h : lexer.next.2 = lexer) (calls : ℕ) : after calls lexer = lexer :=
  Function.iterate_fixed h calls

/-- How a lexer of a text behaves, whatever calls come. -/
structure Steady (source text : String) (lexer : Lexer) : Prop where
  /-- A call ends after three turns at most, and none of them, inside a comment, finds a quote. -/
  halts : ∃ turns, lexer.Takes turns lexer.next ∧ turns.length ≤ 3 ∧
    ∀ x ∈ turns, x.quoted = true → '"' ∉ x.rest
  /-- After a failure the lexer has not moved and fails in the same way for ever, at the first
  character that no rule takes. -/
  fails : ∀ fault later, lexer.next = (.error fault, later) →
    (∀ calls, after calls lexer = lexer ∧ (after calls lexer).next = (.error fault, lexer)) ∧
      fault = (Fault.noCommandMatches.located lexer.position).inSource source ∧
      ∃ ls, Reads text.toList ls lexer.rest ∧ Stuck lexer.rest ∧
        lexer.position = .after (spell ls)
  /-- After the last token nothing is left, and no token comes any more. -/
  finishes : ∀ later, lexer.next = (.ok none, later) →
    later.rest = [] ∧ later.offset text = text.rawEndPos ∧
      ∀ calls, (after calls later).next = (.ok none, later)
  /-- The lexer stands between two characters of the text. -/
  boundary : (lexer.offset text).IsValid text
  /-- Its position is that after the characters before. -/
  place : ∃ read, text.toList = read ++ lexer.rest ∧ lexer.position = .after read
  /-- Between calls it is inside a comment only at the end of the text. -/
  quoted : lexer.quoted = true → lexer.rest = []

/-- Every lexer that comes from the start of a text is steady. -/
theorem reached_steady (h : Reached source text lexer) : Steady source text lexer := by
  obtain ⟨turns, result, hconduct⟩ := h.standing.conduct
  have hnext : lexer.next = result := hconduct.takes.next_eq
  obtain ⟨read, htext, hposition, -, hquoted⟩ := h.standing.exists_read
  refine ⟨⟨turns, ?_, hconduct.length, hconduct.unclosed⟩, ?_, ?_, h.standing.offset_isValid,
    ⟨read, htext, hposition⟩, hquoted⟩
  · rw [hnext]
    exact hconduct.takes
  · intro fault later hlater
    obtain ⟨hstays, hfault, hplace⟩ := hconduct.failed fault (by rw [← hnext, hlater])
    rw [← hnext] at hstays
    refine ⟨fun calls => ?_, hfault, hplace⟩
    have hafter : after calls lexer = lexer := after_of_next_eq hstays calls
    rw [hafter]
    refine ⟨rfl, ?_⟩
    rw [hlater] at hstays ⊢
    exact congrArg _ hstays
  · intro later hlater
    have hrest : later.rest = [] := by
      have hend := hconduct.ended (by rw [← hnext, hlater])
      rwa [← hnext, hlater] at hend
    have hsame : later.next = (.ok none, later) := (Takes.last (turn_of_end hrest)).next_eq
    refine ⟨hrest, ?_, fun calls => ?_⟩
    · unfold offset
      rw [hrest]
      rfl
    · rw [after_of_next_eq (by rw [hsame]) calls]
      exact hsame

/-- A comment of four bytes and a command are read, then a letter that no rule takes. -/
theorem reached_steady_letter :
    (ofText "notes" "\"é\"~é").next.2.next.2.next.1 = .error
      ((Fault.noCommandMatches.located ⟨1, 5⟩).inSource "notes") ∧
    (ofText "notes" "\"é\"~é").next.2.next.2.offset "\"é\"~é" = ⟨5⟩ ∧
    Steady "notes" "\"é\"~é" (ofText "notes" "\"é\"~é").next.2.next.2 :=
  ⟨by decide +kernel, by decide +kernel, reached_steady (.next (.next .new))⟩

end Lexer
end TwinTape
