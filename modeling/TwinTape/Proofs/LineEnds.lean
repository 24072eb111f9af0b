import TwinTape.Proofs.Renaming
import TwinTape.Proofs.Splicing

/-! # The end of a line

A line that is read from the input keeps its line feed, and perhaps a carriage return before it.
This does not matter: a text without line feeds compiles if and only if the line does, and to the
same program.  The end of the line goes to the last terminator, or into the comment that does not
close (`IsFinal`); nowhere else could a text end that compiles.

So a shell that reads the line runs it as it runs the text that is given on the command line, up to
the name of the text (`line_end_harmless`). -/

namespace TwinTape

/-! ### The end of a program text -/

/-- The ways to end the line that holds a text. -/
inductive LineEnd (text : List Char) : List Char → Prop
  | feed : LineEnd text ['\n']
  /-- A second carriage return would not belong to the terminator. -/
  | returnFeed : text.getLast? ≠ some '\r' → LineEnd text ['\r', '\n']

/-- What a text that compiles ends with: a terminator, or a comment that does not close. -/
inductive IsFinal : List Char → Prop
  | terminator (cr lf : Bool) : IsFinal (Lexeme.terminator cr lf).chars
  | comment {body : List Char} : '"' ∉ body → IsFinal ('"' :: body)

section final
variable {text last ending : List Char} {before : List Lexeme}

theorem LineEnd.of_getLast? (h : LineEnd text ending) (hlast : last.getLast? = text.getLast?) :
    LineEnd last ending := by
  cases h with
  | feed => exact .feed
  | returnFeed hcr => exact .returnFeed (hlast ▸ hcr)

theorem LineEnd.not_mem (h : LineEnd text ending) {c : Char} (hc : c = ':' ∨ c = '"') :
    c ∉ ending := by
  rcases hc with rfl | rfl
  · cases h <;> simp
  · cases h <;> simp

theorem IsFinal.exists_cons (h : IsFinal last) : ∃ c t, last = c :: t ∧ (c = ':' ∨ c = '"') := by
  cases h with
  | terminator => exact ⟨_, _, rfl, .inl rfl⟩
  | comment => exact ⟨_, _, rfl, .inr rfl⟩

theorem IsFinal.ne_nil (h : IsFinal last) : last ≠ [] := by
  obtain ⟨c, t, rfl, _⟩ := h.exists_cons
  simp

theorem IsFinal.append (h : IsFinal last) (hfeed : '\n' ∉ last) (he : LineEnd last ending) :
    IsFinal (last ++ ending) := by
  cases h with
  | comment hbody =>
      refine .comment fun hmem => ?_
      rcases List.mem_append.1 hmem with hmem | hmem
      · exact hbody hmem
      · exact he.not_mem (.inr rfl) hmem
  | terminator cr lf =>
      cases lf with
      | true => simp [Lexeme.chars] at hfeed
      | false =>
          cases he with
          | feed =>
              have hchars : (Lexeme.terminator cr false).chars ++ ['\n'] =
                  (Lexeme.terminator cr true).chars := by simp [Lexeme.chars]
              rw [hchars]
              exact .terminator cr true
          | returnFeed hcr =>
              cases cr with
              | true => simp [Lexeme.chars] at hcr
              | false => exact .terminator true true

theorem IsFinal.of_append (h : IsFinal (last ++ ending)) (hne : last ≠ [])
    (he : LineEnd last ending) : IsFinal last := by
  obtain ⟨c, t, rfl⟩ := List.exists_cons_of_ne_nil hne
  generalize hx : c :: t ++ ending = whole at h
  cases h with
  | comment hbody =>
      obtain ⟨rfl, rfl⟩ := List.cons.inj hx
      exact .comment fun hmem => hbody (List.mem_append_left _ hmem)
  | terminator cr lf =>
      obtain ⟨rfl, heol⟩ := List.cons.inj hx
      cases he with
      | feed =>
          cases lf with
          | true =>
              have ht : t = if cr then ['\r'] else [] := List.append_cancel_right heol
              subst ht
              simpa [Lexeme.chars] using IsFinal.terminator cr false
          | false =>
              have hlast := congrArg List.getLast? heol
              cases cr <;> simp at hlast
      | returnFeed =>
          have hlength := congrArg List.length heol
          cases cr with
          | false => cases lf <;> simp at hlength
          | true =>
              cases lf with
              | false => simp at hlength
              | true =>
                  have ht : t = [] := by simpa using heol
                  subst ht
                  exact .terminator false false

/-- The rules take the end of a text as one terminator, or not at all. -/
theorem IsFinal.reads (h : IsFinal last) : ∃ ms rest, Reads last ms rest ∧ ¬ Stuck rest ∧
    (∀ p, (tokensAt p ms).filter (·.kind = .command) = []) ∧
    ∀ before, (last.head? = some '"' → EndsTerminated before) → EndsTerminated (before ++ ms) := by
  cases h with
  | terminator cr lf =>
      have hnil : Reads [] [] [] := .stop (firstMatch_of_isTail (.inl rfl))
      have hnot : ¬ Stuck ([] : List Char) := not_stuck_of_isTail (.inl rfl)
      have hreads := hnil.take_closed (l := .terminator cr lf) trivial
        (hnil.closed_terminator hnot cr lf)
      rw [List.append_nil] at hreads
      exact ⟨_, _, hreads, hnot, fun _ => rfl, fun before _ => endsTerminated_concat before cr lf⟩
  | @comment body hbody =>
      have htail : IsTail ('"' :: body) := .inr ⟨body, rfl, hbody⟩
      refine ⟨_, _, .stop (firstMatch_of_isTail htail), not_stuck_of_isTail htail, fun _ => rfl, ?_⟩
      intro before hbefore
      rw [List.append_nil]
      exact hbefore rfl

/-- The text is the given lexemes, as the rules take them, and its end. -/
structure Finishes (text : List Char) (before : List Lexeme) (last : List Char) : Prop where
  text_eq : text = spell before ++ last
  final : IsFinal last
  reads : ∃ ms rest, Reads text (before ++ ms) rest ∧ ¬ Stuck rest
  /-- There is a terminator before a comment that does not close. -/
  terminated : last.head? = some '"' → EndsTerminated before

/-- The end of a text can be replaced by another one that begins in the same way. -/
theorem Finishes.replace {last' : List Char} (h : Finishes text before last)
    (hfinal : IsFinal last') (hhead : last'.head? = last.head?) :
    Finishes (spell before ++ last') before last' := by
  obtain ⟨ms, rest, hreads, hs⟩ := h.reads
  obtain ⟨ms', rest', hlast, hs', _⟩ := hfinal.reads
  rw [h.text_eq] at hreads
  exact ⟨rfl, hfinal, ⟨ms', rest', hreads.splice hs hhead hlast, hs'⟩, hhead ▸ h.terminated⟩

theorem Finishes.append (h : Finishes text before last) (hfeed : '\n' ∉ text)
    (he : LineEnd text ending) : Finishes (text ++ ending) before (last ++ ending) := by
  have htext := h.text_eq
  have hne := h.final.ne_nil
  have hfeed' : '\n' ∉ last := fun hmem => hfeed (htext ▸ List.mem_append_right _ hmem)
  have hlast : last.getLast? = text.getLast? := by
    rw [htext, List.getLast?_append_of_ne_nil _ hne]
  have hfinal := h.final.append hfeed' (he.of_getLast? hlast)
  rw [htext, List.append_assoc]
  exact h.replace hfinal (List.head?_append_of_ne_nil _ hne)

theorem Finishes.exists_last (h : Finishes (text ++ ending) before last)
    (he : LineEnd text ending) : ∃ last', last = last' ++ ending ∧ last' ≠ [] ∧
      text = spell before ++ last' := by
  obtain ⟨c, t, hc, hfirst⟩ := h.final.exists_cons
  have hnot : c ∉ ending := he.not_mem hfirst
  have hmem : c ∈ last := by simp [hc]
  rcases List.append_eq_append_iff.1 h.text_eq with ⟨x, _, hending⟩ | ⟨last', htext, hlast⟩
  · exact absurd (hending ▸ List.mem_append_right x hmem) hnot
  · refine ⟨last', hlast, ?_, htext⟩
    rintro rfl
    rw [hlast, List.nil_append] at hmem
    exact hnot hmem

theorem Finishes.of_append (h : Finishes (text ++ ending) before last)
    (he : LineEnd text ending) : ∃ last', Finishes text before last' := by
  obtain ⟨last', rfl, hne, htext⟩ := h.exists_last he
  have hlast : last'.getLast? = text.getLast? := by
    rw [htext, List.getLast?_append_of_ne_nil _ hne]
  have hfinal := h.final.of_append hne (he.of_getLast? hlast)
  rw [htext]
  exact ⟨last', h.replace hfinal (List.head?_append_of_ne_nil _ hne).symm⟩

end final

/-! ### Programs -/

namespace Program
variable {source : String} {text ending : String} {p : Program}

/-- A text compiles just if it has an end, and the program is that of the lexemes before. -/
theorem compile_eq_ok_iff_finishes : compile source text = .ok p ↔
    ∃ before last code, Finishes text.toList before last ∧
      List.Forall₂ Decodes ((tokensAt .start before).filter (·.kind = .command)) code ∧
      p = ofCode source code := by
  rw [compile_eq_ok_iff]
  constructor
  · rintro ⟨ls, rest, code, hreads, hs, hl, hcode, rfl⟩
    rcases isTail_of_firstMatch hreads.firstMatch_rest hs with rfl | ⟨body, rfl, hbody⟩
    · obtain ⟨before, cr, lf, rfl⟩ := hl.exists_eq_concat
      refine ⟨before, (Lexeme.terminator cr lf).chars, code, ⟨?_, .terminator cr lf,
        ⟨_, _, hreads, hs⟩, by simp [Lexeme.chars]⟩, ?_, rfl⟩
      · rw [hreads.text_eq, spell_append]
        simp
      · have hnone : (tokensAt (Position.start.advance (spell before))
            [.terminator cr lf]).filter (·.kind = .command) = [] := rfl
        rwa [tokensAt_append, List.filter_append, hnone, List.append_nil] at hcode
    · have hreads' : Reads text.toList (ls ++ []) ('"' :: body) := by rwa [List.append_nil]
      exact ⟨ls, '"' :: body, code, ⟨hreads.text_eq, .comment hbody, ⟨_, _, hreads', hs⟩,
        fun _ => hl⟩, hcode, rfl⟩
  · rintro ⟨before, last, code, hfinishes, hcode, rfl⟩
    obtain ⟨ms, rest, hreads, hs⟩ := hfinishes.reads
    obtain ⟨ms', rest', hlast, hs', hcommands, hterminated⟩ := hfinishes.final.reads
    rw [hfinishes.text_eq] at hreads
    have hreads' := hreads.splice hs rfl hlast
    rw [← hfinishes.text_eq] at hreads'
    refine ⟨_, rest', code, hreads', hs', hterminated before hfinishes.terminated, ?_, rfl⟩
    rwa [tokensAt_append, List.filter_append, hcommands, List.append_nil]

theorem colon_mem_of_compile (h : compile source text = .ok p) : ':' ∈ text.toList := by
  obtain ⟨ls, rest, code, hreads, _, hl, _⟩ := compile_eq_ok_iff.1 h
  obtain ⟨before, cr, lf, rfl⟩ := hl.exists_eq_concat
  rw [hreads.text_eq, spell_append]
  simp [Lexeme.chars]

theorem compile_named (source : String) {name : String} (h : compile name text = .ok p) :
    compile source text = .ok (p.named source) := by
  obtain ⟨ls, rest, code, hreads, hs, hl, hcode, rfl⟩ := compile_eq_ok_iff.1 h
  exact compile_eq_ok_iff.2 ⟨ls, rest, code, hreads, hs, hl, hcode, rfl⟩

/-- The end of a line changes nothing in the program of a text. -/
theorem compile_append_lineEnd (source : String) (hfeed : '\n' ∉ text.toList)
    (he : LineEnd text.toList ending.toList) :
    compile source text = .ok p ↔ compile source (text ++ ending) = .ok p := by
  rw [compile_eq_ok_iff_finishes, compile_eq_ok_iff_finishes, String.toList_append]
  constructor
  · rintro ⟨before, last, code, hfinishes, hcode⟩
    exact ⟨before, _, code, hfinishes.append hfeed he, hcode⟩
  · rintro ⟨before, last, code, hfinishes, hcode⟩
    obtain ⟨last', hfinishes'⟩ := hfinishes.of_append he
    exact ⟨before, last', code, hfinishes', hcode⟩

end Program

/-! ### Lines -/

namespace Line
variable {text : String} {rest : List UInt8}

/-- The bytes of a text. -/
def bytes (text : String) : List UInt8 := text.toUTF8.data.toList

theorem bytes_eq (text : String) : bytes text = text.toList.flatMap String.utf8EncodeChar := by
  rw [bytes, String.toUTF8_eq_toByteArray, ← String.utf8Encode_toList]
  exact List.toList_data_toByteArray

theorem feed_not_mem_utf8EncodeChar {c : Char} (hc : c ≠ '\n') :
    feed ∉ String.utf8EncodeChar c := by
  have hne : c.val.toNat ≠ 10 := by
    intro h
    exact hc (Char.ext (UInt32.toNat_inj.1 h))
  have hbyte : ∀ n, n % 256 ≠ 10 → feed ≠ UInt8.ofNat n := by
    intro n hn h
    apply hn
    have := congrArg UInt8.toNat h
    simpa [feed] using this.symm
  unfold String.utf8EncodeChar
  dsimp only
  split_ifs with h₁ h₂ h₃
  · simp only [List.mem_singleton]
    exact hbyte _ (by omega)
  · simp only [List.mem_cons, List.not_mem_nil, or_false, not_or]
    exact ⟨hbyte _ (by omega), hbyte _ (by omega)⟩
  · simp only [List.mem_cons, List.not_mem_nil, or_false, not_or]
    exact ⟨hbyte _ (by omega), hbyte _ (by omega), hbyte _ (by omega)⟩
  · simp only [List.mem_cons, List.not_mem_nil, or_false, not_or]
    exact ⟨hbyte _ (by omega), hbyte _ (by omega), hbyte _ (by omega), hbyte _ (by omega)⟩

theorem feed_not_mem_bytes (h : '\n' ∉ text.toList) : feed ∉ bytes text := by
  rw [bytes_eq, List.mem_flatMap]
  rintro ⟨c, hc, hmem⟩
  refine feed_not_mem_utf8EncodeChar ?_ hmem
  rintro rfl
  exact h hc

theorem bytes_append (text text' : String) : bytes (text ++ text') = bytes text ++ bytes text' := by
  simp [bytes_eq]

theorem ofBytes_bytes (h : bytes text ≠ []) : ofBytes (bytes text) = .text text := by
  have harray : ByteArray.mk (bytes text).toArray = text.toByteArray := by
    rw [bytes, Array.toArray_toList]
    rfl
  have hread : String.fromUTF8? text.toByteArray = some text := dif_pos text.isValidUTF8
  unfold ofBytes
  rw [if_neg h, harray, hread]

theorem take_bytes (h : '\n' ∉ text.toList) (rest : List UInt8) :
    take (bytes (text ++ "\n") ++ rest) = (.text (text ++ "\n"), rest) := by
  have hfeed : bytes "\n" = [feed] := by
    rw [bytes_eq]
    rfl
  have hbody : ∀ x ∈ bytes text, (x != feed) = true := by
    intro x hx
    apply bne_iff_ne.2
    rintro rfl
    exact feed_not_mem_bytes h hx
  have hsplit : split (bytes (text ++ "\n") ++ rest) = (bytes (text ++ "\n"), rest) := by
    unfold split
    rw [bytes_append, hfeed, List.append_assoc, List.takeWhile_append_of_pos hbody,
      List.dropWhile_append_of_pos hbody]
    simp
  have hne : bytes (text ++ "\n") ≠ [] := by simp [bytes_append, hfeed]
  unfold take
  rw [hsplit]
  dsimp only
  rw [ofBytes_bytes hne]

end Line

/-! ### Sessions -/

namespace Shell
variable {draws : Draws} {s : Shell} {text line ending : String} {rest : List UInt8} {p : Program}

/-- The shell, as if the text had been given on the command line. -/
def withCode (text : String) (s : Shell) : Shell :=
  { s with options := { s.options with code := some text } }

/-- A session runs a line as the text on the command line would be run in its place. -/
structure RunsLike (draws : Draws) (s : Shell) (text line : String) (rest : List UInt8) :
    Prop where
  /-- The line is read to its end and started, and nothing else is read. -/
  reads : s.turn draws (Line.bytes line ++ rest) = (s.start "<input>" line, rest)
  /-- Those who want to see it are shown what was read; the rest is the same. -/
  starts : ∃ strokes,
    s.startStrokes "<input>" line =
      s.debugStrokes ("Raw code: " ++ Text.quoted line) ++ strokes ∧
    (s.withCode text).startStrokes "<code>" text =
      s.debugStrokes ("Raw code: " ++ Text.quoted text) ++ strokes
  /-- Turn by turn until the run is over, both read the same bytes and write the same strokes, and
  nothing in their machines is different, but for the name of the text. -/
  runs : ∀ turns,
    (∀ k < turns, (run draws k ((s.withCode text).start "<code>" text) rest).1.isEngaged = true) →
    (run draws turns (s.start "<input>" line) rest).2 =
        (run draws turns ((s.withCode text).start "<code>" text) rest).2 ∧
      List.Forall₂ (Stroke.Renamed "<code>" "<input>")
        (runStrokes draws turns ((s.withCode text).start "<code>" text) rest)
        (runStrokes draws turns (s.start "<input>" line) rest) ∧
      Twins "<code>" "<input>" (run draws turns ((s.withCode text).start "<code>" text) rest).1
        (run draws turns (s.start "<input>" line) rest).1
  /-- In a session that has run nothing, this is the shell of the command line. -/
  command : ∀ lookup o, s = idle o →
    ofOptions lookup { o with code := some text } = (s.withCode text).start "<code>" text

theorem runText_of_compile {source : String} (h : Program.compile source text = .ok p)
    (m : Machine) : m.runText source text = m.load p := by
  unfold Machine.runText
  rw [h]

theorem twins_start (hcode : Program.compile "<code>" text = .ok p)
    (hline : Program.compile "<input>" line = .ok (p.named "<input>")) (s : Shell) :
    Twins "<code>" "<input>" ((s.withCode text).start "<code>" text)
      (s.start "<input>" line) := by
  have hsource : p.source = "<code>" := by
    obtain ⟨_, _, _, _, _, _, _, rfl⟩ := Program.compile_eq_ok_iff.1 hcode
    rfl
  rw [start_eq, start_eq]
  refine ⟨?_, ?_, rfl, rfl, rfl, .inl rfl⟩
  · show ((s.withCode text).machine.runText "<code>" text).program.source = "<code>"
    rw [runText_of_compile hcode]
    exact hsource
  · show s.machine.runText "<input>" line = (s.machine.runText "<code>" text).named "<input>"
    rw [runText_of_compile hcode, runText_of_compile hline]
    rfl

theorem startStrokes_of_compile {source : String} (h : Program.compile source text = .ok p) :
    s.startStrokes source text = s.debugStrokes ("Raw code: " ++ Text.quoted text) ++
      (s.debugStrokes ("Commands: " ++ p.text) ++ s.jumpStrokes p) := by
  unfold startStrokes
  dsimp only
  rw [runText_of_compile h]
  rfl

theorem runsLike_of_compile (hcode : Program.compile "<code>" text = .ok p)
    (hline : Program.compile "<input>" line = .ok (p.named "<input>"))
    (hread : Line.take (Line.bytes line ++ rest) = (.text line, rest))
    (ha : s.activity = .prompting) : RunsLike draws s text line rest := by
  refine ⟨?_, ?_, fun turns he => (twins_start hcode hline s).run he, ?_⟩
  · have hblank : ¬ line.toList.all Text.isBlank = true := by
      intro hall
      have hcolon := List.all_eq_true.1 hall _ (Program.colon_mem_of_compile hline)
      exact absurd hcolon (by decide)
    unfold turn
    rw [ha, hread]
    simp only [supply, ha, prompt, if_neg hblank]
  · refine ⟨_, startStrokes_of_compile hline, ?_⟩
    rw [startStrokes_of_compile hcode]
    rfl
  · rintro lookup o rfl
    rfl

/-- The end of the line that holds a text does no harm. -/
structure Harmless (text ending : String) : Prop where
  /-- The line is a program if and only if the text is one, and it is the same program. -/
  compiles : ∀ source p, Program.compile source text = .ok p ↔
    Program.compile source (text ++ ending) = .ok p
  /-- Then a session runs the line as the text would be run. -/
  runs : ∀ p, Program.compile "<code>" text = .ok p → ∀ draws s rest, s.activity = .prompting →
    RunsLike draws s text (text ++ ending) rest
  /-- Otherwise neither is run, and a machine only has a fault to tell.  The faults may differ: if a
  terminator is missing, no rule takes the line feed. -/
  refused : (∀ p, Program.compile "<code>" text ≠ .ok p) → ∀ m : Machine, ∃ f f',
    m.runText "<input>" (text ++ ending) = { m.stop with queue := [.fault f] } ∧
    m.runText "<code>" text = { m.stop with queue := [.fault f'] }

theorem runText_of_not_compile {source : String} (h : ∀ p, Program.compile source text ≠ .ok p)
    (m : Machine) : ∃ f, m.runText source text = { m.stop with queue := [.fault f] } := by
  unfold Machine.runText
  cases hc : Program.compile source text with
  | ok p => exact absurd hc (h p)
  | error f => exact ⟨f, rfl⟩

theorem harmless_of_lineEnd (hfeed : '\n' ∉ text.toList)
    (he : LineEnd text.toList ending.toList)
    (hread : ∀ rest, Line.take (Line.bytes (text ++ ending) ++ rest) =
      (.text (text ++ ending), rest)) : Harmless text ending := by
  have hcompiles : ∀ source p, Program.compile source text = .ok p ↔
      Program.compile source (text ++ ending) = .ok p :=
    fun source p => Program.compile_append_lineEnd source hfeed he
  refine ⟨hcompiles, ?_, ?_⟩
  · intro p hcode draws s rest ha
    have hline := (hcompiles "<input>" _).1 (Program.compile_named "<input>" hcode)
    exact runsLike_of_compile hcode hline (hread rest) ha
  · intro hnot m
    have hnot' : ∀ p, Program.compile "<input>" (text ++ ending) ≠ .ok p := by
      intro p hline
      exact hnot _ (Program.compile_named "<code>" ((hcompiles "<input>" p).2 hline))
    obtain ⟨f, hf⟩ := runText_of_not_compile hnot' m
    obtain ⟨f', hf'⟩ := runText_of_not_compile hnot m
    exact ⟨f, f', hf, hf'⟩

/-- **The end of a line is harmless**: a line feed, and a carriage return before it if the text does
not end in another. -/
theorem line_end_harmless (text : String) (hfeed : '\n' ∉ text.toList) :
    Harmless text "\n" ∧ (text.toList.getLast? ≠ some '\r' → Harmless text "\r\n") := by
  refine ⟨harmless_of_lineEnd hfeed .feed (Line.take_bytes hfeed), fun hcr => ?_⟩
  refine harmless_of_lineEnd hfeed (.returnFeed hcr) fun rest => ?_
  have hfeed' : '\n' ∉ (text ++ "\r").toList := by simp [hfeed]
  have hline : text ++ "\r\n" = text ++ "\r" ++ "\n" := by
    rw [String.append_assoc]
    rfl
  rw [hline]
  exact Line.take_bytes hfeed' rest

/-- A lone bracket is a program that fails as soon as it runs, in a line with both ends as well. -/
theorem line_end_harmless_bracket :
    Program.compile "<input>" "]:\r\n" =
      .ok (.ofCode "<input>" [⟨.perform .global (.closing .testFirst), ⟨1, 1⟩⟩]) ∧
    RunsLike (fun _ => 0.5) (idle {}) "]:" "]:\r\n" (Line.bytes "7\n") := by
  have hharmless := (line_end_harmless "]:" (by decide)).2 (by decide)
  have hcode : Program.compile "<code>" "]:" =
      .ok (.ofCode "<code>" [⟨.perform .global (.closing .testFirst), ⟨1, 1⟩⟩]) := by
    decide +kernel
  refine ⟨(hharmless.compiles "<input>" _).1 (Program.compile_named "<input>" hcode), ?_⟩
  exact hharmless.runs _ hcode _ (idle {}) _ rfl

end Shell

end TwinTape
