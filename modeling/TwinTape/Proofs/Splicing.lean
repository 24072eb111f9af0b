import TwinTape.Proofs.Places
import TwinTape.Proofs.Concatenation

/-! # Texts in a row

What the rules take from a text depends, lexeme by lexeme, on the next character only.  So the
lexemes before some place stay the same if the text from there on is replaced by another one that
begins with the same character (`Reads.splice`).

A text whose last lexeme is a terminator can be followed by any other text that compiles, because
none of these begins with the end of a line.  The program of both is that of the first and then that
of the second, with its places translated and its addresses shifted (`texts_join`).  The pass over
the brackets begins anew at the seam if no bracket waits there (`Matching.readAll_after`). -/

namespace TwinTape

/-! ### Lexemes before a place -/

section reading
variable {text text' rest rest' : List Char} {ls ls' ms : List Lexeme} {l : Lexeme}

/-- Only the next character can make a longer lexeme. -/
theorem Lexeme.Closed.of_head?_eq (h : l.Closed text) (hhead : text'.head? = text.head?) :
    l.Closed text' := by
  cases l with
  | comment body => trivial
  | command | terminator | blank =>
      simp only [Closed, hhead] at h ⊢
      exact h

theorem firstMatch_bracket_at (s : Scope) (t : List Char) :
    Rule.firstMatch Rule.grammar
        ((Lexeme.command s .absent (.perform (.opening .testFirst))).chars ++ '@' :: t) =
      some (.command,
        (Lexeme.command s .absent (.perform (.opening .testFirst))).chars.length + 1) := by
  have hopen : Lexeme.Valid (.command s .absent (.perform (.opening .testLast))) :=
    ⟨fun _ => rfl, by simp, trivial⟩
  have hclosed : Lexeme.Closed (.command s .absent (.perform (.opening .testLast))) t := by
    simp [Lexeme.Closed]
  have hm := Lexeme.firstMatch_lexeme hopen hclosed
  simpa [Lexeme.chars, Count.chars, Command.lexeme, Lexeme.kind] using hm

theorem firstMatch_blanks {x : Char} (hx : x ∈ [' ', '\t', '\x0b', '\x0c']) (t : List Char) :
    Rule.firstMatch Rule.grammar (x :: t) =
      some (.blank, ((x :: t).takeWhile Rule.isBlank).length) := by
  have hvalid : (Lexeme.blank ((x :: t).takeWhile Rule.isBlank)).Valid := by
    constructor
    · simp [Rule.isBlank_iff.2 hx]
    · intro c hc
      exact Rule.isBlank_iff.1 (List.mem_takeWhile_imp hc)
  have hclosed : ∀ y, ((x :: t).dropWhile Rule.isBlank).head? = some y →
      y ∉ [' ', '\t', '\x0b', '\x0c'] := by
    intro y hy hblank
    have hnot := List.head?_dropWhile_not Rule.isBlank (x :: t)
    rw [hy] at hnot
    simp [Rule.isBlank_iff.2 hblank] at hnot
  have hm := Rule.firstMatch_blank hvalid hclosed
  rwa [List.takeWhile_append_dropWhile] at hm

/-- A lexeme that the rules take is closed, if they do not get stuck later. -/
theorem Reads.closed (hl : l.Valid)
    (hm : Rule.firstMatch Rule.grammar (l.chars ++ text) = some (l.kind, l.chars.length))
    (h : Reads text ls rest) (hs : ¬ Stuck rest) : l.Closed text := by
  by_contra hc
  have htail := isTail_of_firstMatch h.firstMatch_rest hs
  have htext := h.text_eq
  rw [htext] at hc
  rcases cases_of_not_closed htail h.valid hc with ⟨s, n, ls', rfl, rfl⟩ | ⟨cs, cs', ls', rfl, rfl⟩
  · obtain rfl := Lexeme.count_eq_absent hl rfl
    obtain ⟨t, rfl⟩ : ∃ t, text = '@' :: t := ⟨_, htext⟩
    rw [firstMatch_bracket_at] at hm
    simp at hm
  · obtain ⟨hne, hblank⟩ := h.valid _ List.mem_cons_self
    obtain ⟨x, t, rfl⟩ := List.exists_cons_of_ne_nil hl.1
    have htake : (x :: t ++ text).takeWhile Rule.isBlank =
        x :: t ++ (cs' ++ (spell ls' ++ rest).takeWhile Rule.isBlank) := by
      rw [htext, List.takeWhile_append_of_pos fun y hy => Rule.isBlank_iff.2 (hl.2 y hy)]
      rw [spell_cons, List.append_assoc, Lexeme.chars,
        List.takeWhile_append_of_pos fun y hy => Rule.isBlank_iff.2 (hblank y hy)]
    have hlonger : ((x :: t ++ text).takeWhile Rule.isBlank).length ≠ (x :: t).length := by
      rw [htake, List.length_append, List.length_append]
      have := List.length_pos_iff.2 hne
      omega
    rw [Lexeme.chars, List.cons_append, firstMatch_blanks (hl.2 x (by simp))] at hm
    exact hlonger (Prod.mk.inj (Option.some.inj hm)).2

/-- **The text from some place on can be replaced** by one that begins with the same character. -/
theorem Reads.splice (h : Reads (spell ls ++ text) (ls ++ ms) rest) (hs : ¬ Stuck rest)
    (hhead : text'.head? = text.head?) (h' : Reads text' ls' rest') :
    Reads (spell ls ++ text') (ls ++ ls') rest' := by
  induction ls with
  | nil => exact h'
  | cons l ls ih =>
      rw [spell_cons, List.append_assoc] at h ⊢
      generalize htext : l.chars ++ (spell ls ++ text) = whole at h
      cases h with
      | take hl hm hrest =>
          rw [List.append_cancel_left htext.symm] at hm hrest
          have hclosed := hrest.closed hl hm hs
          refine (ih hrest).take_closed hl (hclosed.of_head?_eq ?_)
          rw [List.head?_append, List.head?_append, hhead]

theorem Reads.closed_terminator (h : Reads text ls rest) (hs : ¬ Stuck rest) (cr lf : Bool) :
    (Lexeme.terminator cr lf).Closed text := by
  by_contra hc
  rw [h.text_eq] at hc
  rcases cases_of_not_closed (isTail_of_firstMatch h.firstMatch_rest hs) h.valid hc with
    ⟨_, _, _, hl, _⟩ | ⟨_, _, _, hl, _⟩
  · contradiction
  · contradiction

theorem EndsTerminated.exists_eq_concat (h : EndsTerminated ls) :
    ∃ before cr lf, ls = before ++ [.terminator cr lf] := by
  obtain ⟨l, hlast, hkind⟩ := Option.map_eq_some_iff.1 h
  obtain ⟨before, rfl⟩ := List.getLast?_eq_some_iff.1 hlast
  cases l with
  | terminator cr lf => exact ⟨before, cr, lf, rfl⟩
  | command | comment | blank => simp [Lexeme.kind] at hkind

theorem endsTerminated_concat (before : List Lexeme) (cr lf : Bool) :
    EndsTerminated (before ++ [.terminator cr lf]) := by
  simp [EndsTerminated, Lexeme.kind]

theorem EndsTerminated.append (ls : List Lexeme) (h : EndsTerminated ls') :
    EndsTerminated (ls ++ ls') := by
  obtain ⟨before, cr, lf, rfl⟩ := h.exists_eq_concat
  rw [← List.append_assoc]
  exact endsTerminated_concat _ cr lf

/-- After a terminator the rules begin anew. -/
theorem Reads.append (h : Reads text ls []) (hl : EndsTerminated ls) (h' : Reads text' ls' rest')
    (hs : ¬ Stuck rest') : Reads (text ++ text') (ls ++ ls') rest' := by
  obtain ⟨before, cr, lf, rfl⟩ := hl.exists_eq_concat
  have htext : text = spell before ++ (Lexeme.terminator cr lf).chars := by
    rw [h.text_eq, spell_append, List.append_nil]
    simp
  subst htext
  have hlast : Reads ((Lexeme.terminator cr lf).chars ++ text') (.terminator cr lf :: ls') rest' :=
    h'.take_closed trivial (h'.closed_terminator hs cr lf)
  have hnil : ¬ Stuck ([] : List Char) := not_stuck_of_isTail (.inl rfl)
  rw [List.append_assoc, List.append_assoc]
  exact h.splice hnil (by simp [Lexeme.chars]) hlast

end reading

/-! ### Places and instructions after a place -/

namespace Position

/-- A place of a text, seen from the start of a text before it that ends at `e`. -/
def translate (e p : Position) : Position :=
  ⟨p.line + e.line - 1, if p.line = 1 then p.column + e.column - 1 else p.column⟩

theorem translate_step (e : Position) {p : Position} (hline : 1 ≤ p.line) (hcolumn : 1 ≤ p.column)
    (c : Char) : (e.translate p).step c = e.translate (p.step c) := by
  obtain ⟨line, column⟩ := p
  simp only at hline hcolumn
  by_cases hc : c = '\n'
  · have hnext : line + 1 ≠ 1 := by omega
    have hsum : line + e.line - 1 + 1 = line + 1 + e.line - 1 := by omega
    simp only [step, translate, if_pos hc, if_neg hnext, hsum]
  · have hsum : column + e.column - 1 + 1 = column + 1 + e.column - 1 := by omega
    simp only [step, translate, if_neg hc]
    split
    · rw [hsum]
    · rfl

/-- Going along a text from a place is going along it from its start, translated. -/
theorem advance_eq_translate (e : Position) (text : List Char) :
    e.advance text = e.translate (after text) := by
  induction text using List.reverseRecOn with
  | nil =>
      obtain ⟨line, column⟩ := e
      simp [after, translate]
  | append_singleton text c ih =>
      rw [advance_append, ih, after_concat, advance_cons, advance_nil]
      exact translate_step e (Nat.le_add_right 1 _) (Nat.le_add_right 1 _) c

end Position

/-- The token at the translated place. -/
def Token.translate (e : Position) (t : Token) : Token :=
  { t with position := e.translate t.position }

/-- The instruction at the translated place. -/
def Placed.translate (e : Position) (placed : Placed) : Placed :=
  { placed with position := e.translate placed.position }

section tokens
variable {ls : List Lexeme} {tokens : List Token} {code : List Placed}

theorem tokensAt_append (p : Position) (ls ms : List Lexeme) :
    tokensAt p (ls ++ ms) = tokensAt p ls ++ tokensAt (p.advance (spell ls)) ms := by
  induction ls generalizing p with
  | nil => rfl
  | cons l ls ih =>
      rw [List.cons_append, tokensAt, ih, tokensAt, List.cons_append, spell_cons,
        Position.advance_append]

theorem tokensAt_translate (e : Position) (before : List Char) (ls : List Lexeme) :
    tokensAt (e.advance before) ls =
      (tokensAt (.after before) ls).map (Token.translate e) := by
  induction ls generalizing before with
  | nil => rfl
  | cons l ls ih =>
      rw [tokensAt, tokensAt, List.map_cons, ← Position.advance_append, ih,
        Position.advance_after, Position.advance_eq_translate]
      rfl

namespace Program

theorem decodeTokens_of_decodes (source : String)
    (h : List.Forall₂ Decodes (tokens.filter (·.kind = .command)) code) :
    decodeTokens source tokens = .ok code := by
  induction tokens generalizing code with
  | nil =>
      cases h
      rfl
  | cons t ts ih =>
      by_cases hk : t.kind = .command
      · rw [List.filter_cons_of_pos (by simpa using hk)] at h
        cases h with
        | cons hd hrest =>
            rw [decodeTokens, if_pos hk, hd.1, ih hrest, hd.2]
            rfl
      · rw [List.filter_cons_of_neg (by simpa using hk)] at h
        rw [decodeTokens, if_neg hk]
        exact ih h

/-- A text compiles just if it is read, ends in a terminator and its commands are decoded. -/
theorem compile_eq_ok_iff {source text : String} {p : Program} :
    compile source text = .ok p ↔
      ∃ ls rest code, Reads text.toList ls rest ∧ ¬ Stuck rest ∧ EndsTerminated ls ∧
        List.Forall₂ Decodes ((tokensAt .start ls).filter (·.kind = .command)) code ∧
        p = ofCode source code := by
  constructor
  · intro h
    obtain ⟨ls, rest, hreads⟩ := exists_reads text.toList
    by_cases hs : Stuck rest
    · rw [compile_of_stuck hreads hs] at h
      contradiction
    · by_cases hl : EndsTerminated ls
      · rw [(compile_of_not_stuck hreads hs).2 hl] at h
        cases hcode : decodeTokens source (tokensAt .start ls) with
        | error fault => simp [hcode, Except.map] at h
        | ok code =>
            simp only [hcode, Except.map, Except.ok.injEq] at h
            exact ⟨ls, rest, code, hreads, hs, hl, decodes_of_decodeTokens hcode, h.symm⟩
      · rw [(compile_of_not_stuck hreads hs).1 hl] at h
        contradiction
  · rintro ⟨ls, rest, code, hreads, hs, hl, hcode, rfl⟩
    rw [(compile_of_not_stuck hreads hs).2 hl, decodeTokens_of_decodes source hcode]
    rfl

theorem decodes_translate (e : Position)
    (h : List.Forall₂ Decodes (tokens.filter (·.kind = .command)) code) :
    List.Forall₂ Decodes ((tokens.map (Token.translate e)).filter (·.kind = .command))
      (code.map (Placed.translate e)) := by
  rw [List.filter_map, List.forall₂_map_left_iff, List.forall₂_map_right_iff]
  refine h.imp fun t placed hd => ⟨hd.1, ?_⟩
  exact congrArg e.translate hd.2

end Program
end tokens

/-! ### Brackets after a place -/

/-- The loop with its addresses shifted. -/
def Loop.shift (offset : ℕ) (l : Loop) : Loop := ⟨l.kind, l.opening + offset, l.closing + offset⟩

/-- The entry with its address shifted. -/
def Pending.move (offset : ℕ) (p : Pending) : Pending := { p with opening := p.opening + offset }

theorem Pending.shift_move (offset : ℕ) (k : Loop.Kind) (change : ℤ) (p : Pending) :
    (p.move offset).shift k change = (p.shift k change).move offset := by
  unfold Pending.shift Pending.move
  split <;> rfl

namespace Matching
variable (offset : ℕ) (found : List Loop) (m : Matching) (k : Loop.Kind) (address : ℕ)

/-- What is known after some instructions, if `offset` others with the loops `found` and without
unmatched brackets stand before them. -/
def after : Matching :=
  { pending := m.pending.map (Pending.move offset)
    loops := m.loops.map (Loop.shift offset) ++ found
    strays := m.strays.map (· + offset) }

theorem pending_after (change : ℤ) :
    (m.after offset found).pending.map (Pending.shift k change) =
      (m.pending.map (Pending.shift k change)).map (Pending.move offset) := by
  simp only [after, List.map_map]
  exact List.map_congr_left fun p _ => Pending.shift_move offset k change p

theorem readOpening_after : (m.after offset found).readOpening k (address + offset) =
    (m.readOpening k address).after offset found := by
  unfold readOpening
  simp only [List.map_append, pending_after]
  simp [after, Pending.shift, Pending.move]

theorem readClosing_after : (m.after offset found).readClosing k (address + offset) =
    (m.readClosing k address).after offset found := by
  have hzero : (fun p : Pending => p.imbalance == 0) ∘ Pending.move offset =
      fun p => p.imbalance == 0 := rfl
  unfold readClosing
  dsimp only
  rw [pending_after]
  generalize m.pending.map (Pending.shift k (-1)) = ps
  rw [List.find?_map, List.eraseP_map, hzero]
  cases ps.find? (·.imbalance == 0) with
  | some p => rfl
  | none => rfl

theorem read_after (i : Instruction) : (m.after offset found).read (address + offset) i =
    (m.read address i).after offset found := by
  unfold read
  split
  · rfl
  · exact readOpening_after offset found m _ address
  · exact readClosing_after offset found m _ address

/-- The pass over the brackets begins anew where no bracket waits. -/
theorem readAll_after (is : List Instruction) :
    (m.after offset found).readAll (address + offset) is =
      (m.readAll address is).after offset found := by
  induction is generalizing m address with
  | nil => rfl
  | cons i is ih =>
      rw [readAll, readAll, read_after, Nat.add_right_comm, ih]

end Matching

namespace JumpTable

/-- The table with its addresses shifted. -/
def shift (offset : ℕ) (table : JumpTable) : JumpTable :=
  ⟨table.loops.map (Loop.shift offset), table.unmatched.map (· + offset)⟩

/-- The loops and unmatched brackets of two tables, the second for later addresses. -/
def join (table later : JumpTable) : JumpTable :=
  ⟨later.loops ++ table.loops, table.unmatched ++ later.unmatched⟩

variable {is : List Instruction}

/-- Without unmatched brackets, nothing but the loops is left of a pass. -/
theorem readAll_of_unmatched (h : (ofInstructions is).unmatched = []) :
    Matching.readAll {} 0 is = Matching.after is.length (ofInstructions is).loops {} := by
  have hperm := List.mergeSort_perm (Matching.readAll {} 0 is).unmatched (· ≤ ·)
  have hnil : (Matching.readAll {} 0 is).unmatched = [] := by
    rw [← List.perm_nil]
    refine hperm.symm.trans (List.Perm.of_eq ?_)
    exact h
  obtain ⟨hstrays, hpending⟩ := List.append_eq_nil_iff.1 hnil
  rcases hm : Matching.readAll {} 0 is with ⟨pending, loops, strays⟩
  rw [hm] at hstrays hpending
  simp only [List.map_eq_nil_iff] at hstrays hpending
  simp [Matching.after, ofInstructions, hm, hstrays, hpending]

theorem unmatched_after (offset : ℕ) (found : List Loop) (m : Matching) :
    (m.after offset found).unmatched = m.unmatched.map (· + offset) := by
  simp [Matching.unmatched, Matching.after, Pending.move]

/-- **The table of instructions in a row** is that of the first ones and, shifted, that of the
others, if no bracket of the first is unmatched. -/
theorem ofInstructions_append (h : (ofInstructions is).unmatched = []) (js : List Instruction) :
    ofInstructions (is ++ js) = (ofInstructions is).join ((ofInstructions js).shift is.length) := by
  have hread : Matching.readAll {} 0 (is ++ js) =
      (Matching.readAll {} 0 js).after is.length (ofInstructions is).loops := by
    rw [Matching.readAll_append, readAll_of_unmatched h, Matching.readAll_after]
  have hsort : ((Matching.readAll {} 0 js).unmatched.map (· + is.length)).mergeSort (· ≤ ·) =
      ((Matching.readAll {} 0 js).unmatched.mergeSort (· ≤ ·)).map (· + is.length) := by
    symm
    apply List.map_mergeSort
    intro a _ b _
    simp
  show (⟨(Matching.readAll {} 0 (is ++ js)).loops,
    (Matching.readAll {} 0 (is ++ js)).unmatched.mergeSort (· ≤ ·)⟩ : JumpTable) = _
  rw [hread, unmatched_after, hsort, join, h]
  rfl

/-- Both jumps of a loop. -/
def ends (l : Loop) : List (ℕ × ℕ) := [(l.opening, l.closing), (l.closing, l.opening)]

theorem jumps_perm (table : JumpTable) (k : Loop.Kind) :
    (table.jumps k).Perm ((table.loops.filter (·.kind = k)).flatMap ends) :=
  List.mergeSort_perm _ _

theorem jumps_join_shift (table later : JumpTable) (offset : ℕ) (k : Loop.Kind) :
    ((table.join (later.shift offset)).jumps k).Perm (table.jumps k ++
      (later.jumps k).map fun jump => (jump.1 + offset, jump.2 + offset)) := by
  have hshift : ((later.loops.map (Loop.shift offset)).filter (·.kind = k)).flatMap ends =
      ((later.loops.filter (·.kind = k)).flatMap ends).map
        fun jump => (jump.1 + offset, jump.2 + offset) := by
    rw [List.filter_map, List.flatMap_map, List.map_flatMap]
    rfl
  have hjoin : ((table.join (later.shift offset)).loops.filter (·.kind = k)).flatMap ends =
      ((later.loops.filter (·.kind = k)).flatMap ends).map
          (fun jump => (jump.1 + offset, jump.2 + offset)) ++
        (table.loops.filter (·.kind = k)).flatMap ends := by
    rw [← hshift, ← List.flatMap_append, ← List.filter_append]
    rfl
  refine (jumps_perm _ k).trans ?_
  rw [hjoin]
  refine List.perm_append_comm.trans ?_
  exact ((jumps_perm table k).symm).append ((jumps_perm later k).symm.map _)

/-- The jumps of a kind are listed by address, so those of the first instructions come first. -/
theorem jumps_append (h : (ofInstructions is).unmatched = []) (js : List Instruction)
    (k : Loop.Kind) :
    (ofInstructions (is ++ js)).jumps k = (ofInstructions is).jumps k ++
      ((ofInstructions js).jumps k).map fun jump => (jump.1 + is.length, jump.2 + is.length) := by
  refine List.Perm.eq_of_pairwise ?_ (jumps_pairwise k) ?_ ?_
  · intro p q _ _ hpq hqp
    omega
  · refine List.pairwise_append.2 ⟨jumps_pairwise k, ?_, ?_⟩
    · rw [List.pairwise_map]
      exact (jumps_pairwise k).imp fun hlt => Nat.add_lt_add_right hlt _
    · rintro ⟨a, b⟩ hp q hq
      obtain ⟨jump, _, rfl⟩ := List.mem_map.1 hq
      have ha := lt_length_of_partner (mem_jumps_iff.1 hp).symm
      exact Nat.lt_of_lt_of_le ha (Nat.le_add_left _ _)
  · rw [ofInstructions_append h]
    exact jumps_join_shift _ _ _ k

end JumpTable

/-! ### Programs of texts in a row -/

namespace Program
variable {source : String} {t₁ t₂ : String} {p p₁ p₂ : Program} {tokens : List Token}

/-- The program consists of two others, of which the second is written after a text that ends at
`e`. -/
structure Joins (e : Position) (p₁ p₂ p : Program) : Prop where
  instructions : p.instructions = p₁.instructions ++ p₂.instructions
  positions : p.positions = p₁.positions ++ p₂.positions.map e.translate
  /-- Without unmatched brackets in the first, no loop goes across the seam. -/
  table : p₁.jumps.unmatched = [] → p.jumps = p₁.jumps.join (p₂.jumps.shift p₁.size)
  jumps : p₁.jumps.unmatched = [] → ∀ k, p.jumps.jumps k = p₁.jumps.jumps k ++
    (p₂.jumps.jumps k).map fun jump => (jump.1 + p₁.size, jump.2 + p₁.size)
  unmatched : p₁.jumps.unmatched = [] →
    p.jumps.unmatched = p₂.jumps.unmatched.map (· + p₁.size)

/-- The table of a program follows from its instructions. -/
theorem joins_of_instructions {e : Position}
    (hinstructions : p.instructions = p₁.instructions ++ p₂.instructions)
    (hpositions : p.positions = p₁.positions ++ p₂.positions.map e.translate) :
    Joins e p₁ p₂ p := by
  have hjumps : ∀ q : Program, q.jumps = JumpTable.ofInstructions q.instructions := jumps_eq
  have htable : p₁.jumps.unmatched = [] → p.jumps = p₁.jumps.join (p₂.jumps.shift p₁.size) := by
    intro h
    rw [unmatched_eq] at h
    rw [hjumps p, hinstructions, JumpTable.ofInstructions_append h, ← hjumps, ← hjumps,
      length_instructions]
  refine ⟨hinstructions, hpositions, htable, ?_, ?_⟩
  · intro h k
    rw [unmatched_eq] at h
    rw [hjumps p, hinstructions, JumpTable.jumps_append h, ← hjumps, ← hjumps,
      length_instructions]
  · intro h
    rw [htable h, JumpTable.join, h]
    rfl

theorem joins_of_code (e : Position) (source : String) (code₁ code₂ : List Placed) :
    Joins e (ofCode source code₁) (ofCode source code₂)
      (ofCode source (code₁ ++ code₂.map (Placed.translate e))) := by
  apply joins_of_instructions
  · unfold instructions ofCode
    rw [List.map_append, List.map_map]
    rfl
  · unfold positions ofCode
    rw [List.map_append, List.map_map, List.map_map]
    rfl

/-- **Texts in a row compile to programs in a row**, if no comment stays open in the first. -/
theorem texts_join (h₁ : compile source t₁ = .ok p₁) (h₂ : compile source t₂ = .ok p₂)
    (htokens : (Lexer.ofText source t₁).tokens = .ok tokens)
    (hspelled : tokens.flatMap Token.lexeme = t₁.toList) :
    ∃ p, compile source (t₁ ++ t₂) = .ok p ∧ Joins (.after t₁.toList) p₁ p₂ p := by
  obtain ⟨ls₁, rest₁, code₁, hreads₁, hs₁, hl₁, hcode₁, rfl⟩ := compile_eq_ok_iff.1 h₁
  obtain ⟨ls₂, rest₂, code₂, hreads₂, hs₂, hl₂, hcode₂, rfl⟩ := compile_eq_ok_iff.1 h₂
  have hspell : spell ls₁ = t₁.toList := by
    rw [(Lexer.tokens_of_reads source hreads₁).2 hs₁] at htokens
    cases htokens
    rw [← hspelled, flatMap_tokensAt]
  obtain rfl : rest₁ = [] := by
    have htext := hreads₁.text_eq
    rw [hspell] at htext
    exact List.self_eq_append_right.1 htext
  have hreads : Reads (t₁ ++ t₂).toList (ls₁ ++ ls₂) rest₂ := by
    rw [String.toList_append]
    exact hreads₁.append hl₁ hreads₂ hs₂
  have htokensAt : tokensAt .start (ls₁ ++ ls₂) =
      tokensAt .start ls₁ ++ (tokensAt .start ls₂).map (Token.translate (.after t₁.toList)) := by
    rw [tokensAt_append, hspell, Position.advance_start]
    exact congrArg _ (tokensAt_translate (.after t₁.toList) [] ls₂)
  refine ⟨_, compile_eq_ok_iff.2 ⟨ls₁ ++ ls₂, rest₂, _, hreads, hs₂, hl₂.append ls₁, ?_, rfl⟩,
    joins_of_code (.after t₁.toList) source code₁ code₂⟩
  rw [htokensAt, List.filter_append]
  exact List.rel_append hcode₁ (decodes_translate (.after t₁.toList) hcode₂)

/-- A loop, then a text of two lines with a bracket that stays alone. -/
theorem texts_join_stray :
    let p₁ := ofCode "demo" [⟨.perform .global (.opening .testFirst), ⟨1, 1⟩⟩,
      ⟨.perform .global (.closing .testFirst), ⟨1, 2⟩⟩, ⟨.act .global .once .increment, ⟨2, 1⟩⟩]
    let p₂ := ofCode "demo" [⟨.perform .global (.closing .testFirst), ⟨1, 1⟩⟩,
      ⟨.act .local .once .increment, ⟨2, 1⟩⟩]
    compile "demo" "[]:\n!:" = .ok p₁ ∧ compile "demo" "]:\n'!:\"" = .ok p₂ ∧
    ∃ p, compile "demo" ("[]:\n!:" ++ "]:\n'!:\"") = .ok p ∧ Joins ⟨2, 3⟩ p₁ p₂ p ∧
      p.positions = [⟨1, 1⟩, ⟨1, 2⟩, ⟨2, 1⟩, ⟨2, 3⟩, ⟨3, 1⟩] ∧ p.jumps.unmatched = [3] := by
  intro p₁ p₂
  have h₁ : compile "demo" "[]:\n!:" = .ok p₁ := by decide +kernel
  have h₂ : compile "demo" "]:\n'!:\"" = .ok p₂ := by decide +kernel
  have htokens : (Lexer.ofText "demo" "[]:\n!:").tokens = .ok
      [⟨.command, ['['], ⟨1, 1⟩⟩, ⟨.command, [']'], ⟨1, 2⟩⟩, ⟨.terminator, [':', '\n'], ⟨1, 3⟩⟩,
        ⟨.command, ['!'], ⟨2, 1⟩⟩, ⟨.terminator, [':'], ⟨2, 2⟩⟩] := by decide +kernel
  obtain ⟨p, hp, hjoins⟩ := texts_join h₁ h₂ htokens (by decide +kernel)
  refine ⟨h₁, h₂, p, hp, hjoins, ?_, ?_⟩
  · rw [hjoins.positions]
    decide +kernel
  · rw [hjoins.unmatched (by decide +kernel)]
    decide +kernel

end Program

end TwinTape
