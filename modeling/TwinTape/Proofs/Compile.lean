import TwinTape.Proofs.Reading

/-! # Which texts are programs

`Grammatical text` is the grammar of program texts, without any order of rules: a row of lexemes
whose numbers fit and whose last one is a terminator, and after it perhaps a comment that does not
close.  `Faulty source text` says what is wrong with any other text: the rules get stuck, or the
text does not end in a terminator, or a number does not fit, and the first of these three counts.

`Program.compile` accepts the grammatical texts and reports the fault of all others
(`compile_accepts_grammar`).  What the lexer hands out, with its places, is the reading of the
text (`scan_of_reads`), and the passes of the compiler are evaluated on it. -/

namespace TwinTape

variable {source : String} {text rest : List Char} {ls before after : List Lexeme}

/-! ### The grammar -/

/-- The last lexeme is a terminator. -/
def EndsTerminated (ls : List Lexeme) : Prop := ls.getLast?.map Lexeme.kind = some .terminator

/-- The text can be cut into lexemes and a tail. -/
def Grammatical (text : List Char) : Prop :=
  ∃ ls tail, text = spell ls ++ tail ∧ IsTail tail ∧ EndsTerminated ls ∧
    ∀ l ∈ ls, l.Valid ∧ l.Fits

/-- The fault of a text that is no program. -/
inductive Faulty (source : String) (text : List Char) : Fault → Prop
  /-- No rule matches somewhere. -/
  | stuck {ls : List Lexeme} {rest : List Char} :
      Reads text ls rest → Stuck rest →
      Faulty source text
        ((Fault.noCommandMatches.located (Position.start.advance (spell ls))).inSource source)
  /-- All is read, and the last lexeme is no terminator. -/
  | unterminated {ls : List Lexeme} {rest : List Char} :
      Reads text ls rest → ¬ Stuck rest → ¬ EndsTerminated ls →
      Faulty source text ⟨.unterminated, some (Position.start.advance text), some source, ""⟩
  /-- All is read, the last lexeme is a terminator, and `l` is the first one with a number that
  does not fit. -/
  | count {before after : List Lexeme} {l : Lexeme} {rest : List Char} :
      Reads text (before ++ l :: after) rest → ¬ Stuck rest →
      EndsTerminated (before ++ l :: after) → (∀ l' ∈ before, l'.Fits) → ¬ l.Fits →
      Faulty source text
        ((Fault.invalidCount.located (Position.start.advance (spell before))).inSource source)

/-! ### The lexer -/

/-- The tokens of lexemes of which the first stands at `p`. -/
def tokensAt (p : Position) : List Lexeme → List Token
  | [] => []
  | l :: ls => ⟨l.kind, l.chars, p⟩ :: tokensAt (p.advance l.chars) ls

namespace Lexer

theorem nextWith_of_match {rules : List Rule} {lexer : Lexer} (hq : lexer.quoted = false)
    {k : Token.Kind} {n : Nat} (h : Rule.firstMatch rules lexer.rest = some (k, n)) :
    lexer.nextWith rules = (.ok (some (lexer.token k n)), lexer.skip n) := by
  have hbounds := Rule.firstMatch_bounds h
  rw [nextWith]
  split
  · rename_i hr
    rw [hr] at hbounds
    simp at hbounds
    omega
  · rw [hq, if_neg (by decide), h]

theorem nextWith_of_end {rules : List Rule} {lexer : Lexer} (h : lexer.rest = []) :
    lexer.nextWith rules = (.ok none, lexer) := by
  rw [nextWith]
  split
  · rfl
  · simp_all

theorem nextWith_of_stuck {rules : List Rule} {lexer : Lexer} (hq : lexer.quoted = false)
    (h : Rule.firstMatch rules lexer.rest = none) (hs : Stuck lexer.rest) :
    lexer.nextWith rules =
      (.error ((Fault.noCommandMatches.located lexer.position).inSource lexer.source), lexer) := by
  obtain ⟨c, t, hr, hc⟩ := hs
  rw [nextWith]
  split
  · simp_all
  · rename_i c' t' hr'
    have hc' : c' ≠ '"' := by
      rw [hr] at hr'
      rwa [← (List.cons.inj hr').1]
    rw [hq, if_neg (by decide), h]
    exact if_neg hc'

theorem nextWith_of_inside {rules : List Rule} {lexer : Lexer} (hq : lexer.quoted = true)
    (h : lexer.rest ≠ []) : lexer.nextWith rules = lexer.skipComment.nextWith rules := by
  rw [nextWith]
  split
  · contradiction
  · rw [hq, if_pos rfl]

theorem nextWith_of_quote {rules : List Rule} {lexer : Lexer} (hq : lexer.quoted = false)
    (h : Rule.firstMatch rules lexer.rest = none) {body : List Char}
    (hr : lexer.rest = '"' :: body) :
    lexer.nextWith rules = lexer.openComment.nextWith rules := by
  rw [nextWith]
  split
  · simp_all
  · rename_i c t hr'
    have hc : c = '"' := by
      rw [hr] at hr'
      exact (List.cons.inj hr').1.symm
    rw [hq, if_neg (by decide), h]
    exact if_pos hc

theorem nextWith_of_quoted {lexer : Lexer} (hq : lexer.quoted = true) (h : '"' ∉ lexer.rest) :
    ∃ last, lexer.nextWith Rule.grammar = (.ok none, last) ∧
      last.position = lexer.position.advance lexer.rest ∧ last.source = lexer.source := by
  cases hr : lexer.rest with
  | nil => exact ⟨lexer, nextWith_of_end hr, rfl, rfl⟩
  | cons c t =>
      have huntil : lexer.untilQuote = lexer.rest.length := by
        rw [untilQuote, List.takeWhile_eq_self_iff.2]
        intro x hx
        apply bne_iff_ne.2
        rintro rfl
        exact h hx
      have hend : lexer.skipComment.rest = [] := by
        rw [rest_skipComment, huntil]
        exact List.drop_eq_nil_of_le (Nat.le_succ _)
      refine ⟨lexer.skipComment, ?_, ?_, rfl⟩
      · rw [nextWith_of_inside hq (by simp [hr]), nextWith_of_end hend]
      · show lexer.position.advance (lexer.rest.take (lexer.untilQuote + 1)) = _
        rw [huntil, List.take_of_length_le (Nat.le_succ _), hr]

theorem nextWith_of_tail {lexer : Lexer} (hq : lexer.quoted = false) (h : IsTail lexer.rest) :
    ∃ last, lexer.nextWith Rule.grammar = (.ok none, last) ∧
      last.position = lexer.position.advance lexer.rest ∧ last.source = lexer.source := by
  have hnone := firstMatch_of_isTail h
  obtain hr | ⟨body, hr, hbody⟩ := h
  · exact ⟨lexer, nextWith_of_end hr, by rw [hr]; rfl, rfl⟩
  · have hopen : lexer.openComment.rest = body := by rw [rest_openComment, hr]; rfl
    obtain ⟨last, hnext, hpos, hsource⟩ :=
      nextWith_of_quoted (show lexer.openComment.quoted = true from rfl) (by rwa [hopen])
    refine ⟨last, ?_, ?_, hsource⟩
    · rw [← hnext, nextWith_of_quote hq hnone hr]
    · rw [hpos, hopen, hr]
      show (lexer.position.advance (lexer.rest.take 1)).advance body = _
      rw [hr]
      rfl

/-- The lexer hands out the lexemes that the rules take; then it is stuck, or goes to the end. -/
theorem scan_of_reads (lexer : Lexer) (hq : lexer.quoted = false)
    (h : Reads lexer.rest ls rest) :
    (Stuck rest → lexer.scan = (tokensAt lexer.position ls, .error
      ((Fault.noCommandMatches.located
        (lexer.position.advance (spell ls))).inSource lexer.source))) ∧
    (¬ Stuck rest → ∃ last, lexer.scan = (tokensAt lexer.position ls, .ok last) ∧
      last.position = lexer.position.advance lexer.rest ∧ last.source = lexer.source) := by
  generalize htext : lexer.rest = text at h
  induction h generalizing lexer with
  | stop hnone =>
      subst htext
      constructor
      · intro hs
        exact scanWith_of_fault (nextWith_of_stuck hq hnone hs)
      · intro hs
        obtain ⟨last, hnext, hlast⟩ := nextWith_of_tail hq (isTail_of_firstMatch hnone hs)
        exact ⟨last, scanWith_of_end hnext, hlast⟩
  | @take l text rest ls hl hm _ ih =>
      have hscan : lexer.scan = (lexer.token l.kind l.chars.length ::
          (lexer.skip l.chars.length).scan.1, (lexer.skip l.chars.length).scan.2) :=
        scanWith_of_token (nextWith_of_match hq (by rw [htext]; exact hm))
      have hskip : (lexer.skip l.chars.length).rest = text := by
        rw [rest_skip, htext, List.drop_left]
      have hpos : (lexer.skip l.chars.length).position = lexer.position.advance l.chars := by
        show lexer.position.advance (lexer.rest.take l.chars.length) = _
        rw [htext, List.take_left]
      have htoken : lexer.token l.kind l.chars.length = ⟨l.kind, l.chars, lexer.position⟩ := by
        rw [token, htext, List.take_left]
      obtain ⟨hstuck, hend⟩ := ih (lexer.skip l.chars.length) hq hskip
      rw [hpos] at hstuck hend
      rw [hscan, htoken]
      constructor
      · intro hs
        rw [hstuck hs, spell_cons, Position.advance_append]
        rfl
      · intro hs
        obtain ⟨last, hlast, hp, hsrc⟩ := hend hs
        exact ⟨last, by rw [hlast]; rfl, by rw [hp, Position.advance_append], hsrc⟩

end Lexer
/-! ### The compiler -/

theorem lastKind_tokensAt (p : Position) (ls : List Lexeme) :
    (tokensAt p ls).getLast?.map Token.kind = ls.getLast?.map Lexeme.kind := by
  have hmap : (tokensAt p ls).map Token.kind = ls.map Lexeme.kind := by
    induction ls generalizing p with
    | nil => rfl
    | cons l ls ih => simp [tokensAt, ih]
  rw [← List.getLast?_map, hmap, List.getLast?_map]

theorem any_terminator_iff (p : Position) :
    ((tokensAt p ls).getLast?.any fun t => t.kind = .terminator) = true ↔ EndsTerminated ls := by
  rw [EndsTerminated, ← lastKind_tokensAt p]
  cases (tokensAt p ls).getLast? with
  | none => simp
  | some t => simp

namespace Program

theorem decodeTokens_of_fits (source : String) (p : Position) (hv : ∀ l ∈ ls, l.Valid)
    (hf : ∀ l ∈ ls, l.Fits) :
    ∃ code, decodeTokens source (tokensAt p ls) = .ok code := by
  induction ls generalizing p with
  | nil => exact ⟨[], rfl⟩
  | cons l ls ih =>
      obtain ⟨hl, hv'⟩ := List.forall_mem_cons.1 hv
      obtain ⟨hfl, hf'⟩ := List.forall_mem_cons.1 hf
      obtain ⟨code, hcode⟩ := ih (p.advance l.chars) hv' hf'
      cases l with
      | command s n c =>
          obtain ⟨i, hi⟩ := (Lexeme.decode_chars hl).1 hfl
          refine ⟨⟨i, p⟩ :: code, ?_⟩
          simp [tokensAt, decodeTokens, Lexeme.kind, hi, hcode, Except.map]
      | terminator | comment | blank => exact ⟨code, hcode⟩

theorem decodeTokens_of_not_fits {l : Lexeme} (p : Position) (hv : ∀ l ∈ before, l.Valid)
    (hf : ∀ l ∈ before, l.Fits) (hl : l.Valid) (hnot : ¬ l.Fits) :
    decodeTokens source (tokensAt p (before ++ l :: after)) =
      .error ((Fault.invalidCount.located (p.advance (spell before))).inSource source) := by
  induction before generalizing p with
  | nil =>
      cases l with
      | command s n c =>
          have hi := (Lexeme.decode_chars hl).2 hnot
          simp [tokensAt, decodeTokens, Lexeme.kind, hi]
      | terminator | comment | blank => exact absurd trivial hnot
  | cons b before ih =>
      obtain ⟨hb, hv'⟩ := List.forall_mem_cons.1 hv
      obtain ⟨hfb, hf'⟩ := List.forall_mem_cons.1 hf
      have hrest := ih (p.advance b.chars) hv' hf'
      rw [← Position.advance_append] at hrest
      cases b with
      | command s n c =>
          obtain ⟨i, hi⟩ := (Lexeme.decode_chars hb).1 hfb
          simp [tokensAt, decodeTokens, Lexeme.kind, hi, hrest, Except.map]
      | terminator | comment | blank => exact hrest

variable {text : String}

theorem compile_eq (source text : String) : compile source text =
    match (Lexer.ofText source text).scan with
    | (_, .error fault) => .error fault
    | (tokens, .ok last) =>
      if tokens.getLast?.any fun t => t.kind = .terminator then
        (decodeTokens source tokens).map (ofCode source)
      else .error ⟨.unterminated, some last.position, some last.source, ""⟩ := by
  rcases hscan : (Lexer.ofText source text).scan with ⟨tokens, fault | last⟩
  · simp [compile, Lexer.validate, hscan, bind, Except.bind]
  · by_cases hlast : tokens.getLast?.any fun t => t.kind = .terminator
    · have hsource : (Lexer.ofText source text).source = source := rfl
      simp only [compile, Lexer.validate, decodeRest, hscan, hlast, if_pos, bind, Except.bind,
        hsource]
      cases decodeTokens source tokens <;> rfl
    · simp [compile, Lexer.validate, hscan, hlast, bind, Except.bind, Fault.located,
        Fault.inSource]

theorem compile_of_stuck (h : Reads text.toList ls rest) (hs : Stuck rest) :
    compile source text = .error
      ((Fault.noCommandMatches.located (Position.start.advance (spell ls))).inSource source) := by
  rw [compile_eq, (Lexer.scan_of_reads (.ofText source text) rfl h).1 hs]
  rfl

/-- If all is read, the last lexeme counts, and then the numbers. -/
theorem compile_of_not_stuck (h : Reads text.toList ls rest) (hs : ¬ Stuck rest) :
    (¬ EndsTerminated ls → compile source text =
      .error ⟨.unterminated, some (Position.start.advance text.toList), some source, ""⟩) ∧
    (EndsTerminated ls → compile source text =
      (decodeTokens source (tokensAt .start ls)).map (ofCode source)) := by
  obtain ⟨last, hscan, hpos, hsource⟩ := (Lexer.scan_of_reads (.ofText source text) rfl h).2 hs
  rw [compile_eq, hscan]
  constructor
  · intro hl
    have hany := mt (any_terminator_iff .start).1 hl
    refine (if_neg hany).trans ?_
    rw [hpos, hsource]
    rfl
  · intro hl
    exact if_pos ((any_terminator_iff .start).2 hl)

theorem exists_first_not_fits (hno : ¬ ∀ l ∈ ls, l.Fits) :
    ∃ before l after, ls = before ++ l :: after ∧ (∀ l' ∈ before, l'.Fits) ∧ ¬ l.Fits := by
  induction ls with
  | nil => simp at hno
  | cons l ls ih =>
      by_cases hl : l.Fits
      · have hno' : ¬ ∀ l' ∈ ls, l'.Fits := fun h => hno (List.forall_mem_cons.2 ⟨hl, h⟩)
        obtain ⟨before, l', after, rfl, hbefore, hnot⟩ := ih hno'
        exact ⟨l :: before, l', after, rfl, List.forall_mem_cons.2 ⟨hl, hbefore⟩, hnot⟩
      · exact ⟨[], l, ls, rfl, by simp, hl⟩

theorem compile_of_fits (source : String) (h : Reads text.toList ls rest) (hs : ¬ Stuck rest)
    (hl : EndsTerminated ls) (hf : ∀ l ∈ ls, l.Fits) : ∃ p, compile source text = .ok p := by
  obtain ⟨code, hcode⟩ := decodeTokens_of_fits source .start h.valid hf
  refine ⟨ofCode source code, ?_⟩
  rw [(compile_of_not_stuck h hs).2 hl, hcode]
  rfl

/-- The text of any other reading has a fault. -/
theorem compile_of_faulty {f : Fault} (h : Faulty source text.toList f) :
    compile source text = .error f := by
  cases h with
  | stuck h hs => exact compile_of_stuck h hs
  | unterminated h hs hl => exact (compile_of_not_stuck h hs).1 hl
  | @count before after l rest h hs hl hbefore hnot =>
      have hv := List.forall_mem_append.1 h.valid
      obtain ⟨hvl, _⟩ := List.forall_mem_cons.1 hv.2
      rw [(compile_of_not_stuck h hs).2 hl, decodeTokens_of_not_fits .start hv.1 hbefore hvl hnot]
      rfl

/-- A text is read well, and then it is grammatical, or it has a fault. -/
theorem grammatical_or_faulty (source : String) (text : List Char) :
    (∃ ls rest, Reads text ls rest ∧ ¬ Stuck rest ∧ EndsTerminated ls ∧ ∀ l ∈ ls, l.Fits) ∨
      ∃ f, Faulty source text f := by
  obtain ⟨ls, rest, h⟩ := exists_reads text
  by_cases hs : Stuck rest
  · exact .inr ⟨_, .stuck h hs⟩
  · by_cases hl : EndsTerminated ls
    · by_cases hf : ∀ l ∈ ls, l.Fits
      · exact .inl ⟨ls, rest, h, hs, hl, hf⟩
      · obtain ⟨before, l, after, rfl, hbefore, hnot⟩ := exists_first_not_fits hf
        exact .inr ⟨_, .count h hs hl hbefore hnot⟩
    · exact .inr ⟨_, .unterminated h hs hl⟩

theorem kind_of_compile {f : Fault} (h : compile source text = .error f) :
    f.kind = .malformed ∨ f.kind = .unterminated := by
  rcases grammatical_or_faulty source text.toList with ⟨ls, rest, hr, hs, hl, hfits⟩ | ⟨f', hf'⟩
  · obtain ⟨p, hp⟩ := compile_of_fits source hr hs hl hfits
    rw [hp] at h
    contradiction
  · rw [compile_of_faulty hf'] at h
    cases h
    cases hf' with
    | stuck | count => exact .inl rfl
    | unterminated => exact .inr rfl

/-- **The compiler accepts its grammar**, and the fault of any other text is the first one of
three. -/
theorem compile_accepts_grammar (source text : String) :
    ((∃ p, compile source text = .ok p) ↔ Grammatical text.toList) ∧
    ∀ f, compile source text = .error f ↔ Faulty source text.toList f := by
  have hcases := grammatical_or_faulty source text.toList
  refine ⟨⟨?_, ?_⟩, fun f => ⟨?_, compile_of_faulty⟩⟩
  · rintro ⟨p, hp⟩
    rcases hcases with ⟨ls, rest, h, hs, hl, hf⟩ | ⟨f, hf⟩
    · exact ⟨ls, rest, h.text_eq, isTail_of_firstMatch h.firstMatch_rest hs, hl,
        fun l hmem => ⟨h.valid l hmem, hf l hmem⟩⟩
    · rw [compile_of_faulty hf] at hp
      simp at hp
  · rintro ⟨ls, tail, htext, htail, hl, hall⟩
    obtain ⟨ls', hreads, hfits, hlast⟩ := exists_reads_of_spell htail
      (fun l hmem => (hall l hmem).1) (fun l hmem => (hall l hmem).2)
    rw [← htext] at hreads
    exact compile_of_fits source hreads (not_stuck_of_isTail htail) (hlast.trans hl) hfits
  · intro hf
    rcases hcases with ⟨ls, rest, h, hs, hl, hfits⟩ | ⟨f', hf'⟩
    · obtain ⟨p, hp⟩ := compile_of_fits source h hs hl hfits
      rw [hp] at hf
      simp at hf
    · rw [compile_of_faulty hf'] at hf
      rwa [← Except.error.inj hf]

end Program
end TwinTape
