import TwinTape.Proofs.FirstMatch

/-! # Reading a text lexeme by lexeme

`Reads text ls rest` says that the rules, tried in order, take the lexemes `ls` from the text one
after the other and that none matches at `rest`.  Every text is read in this way (`exists_reads`).

A text that is a row of lexemes may be cut in several ways: blanks may be cut anywhere, and a
bracket followed by an at sign and a bracket may be cut before or after the at sign.  The rules
take the longer piece each time, and what is left is again a row of lexemes
(`exists_reads_of_spell`), so they never get stuck where some other cut would have gone on. -/

namespace TwinTape

/-- The lexemes that the rules take from a text, and what is left where no rule matches. -/
inductive Reads : List Char → List Lexeme → List Char → Prop
  | stop {text : List Char} :
      Rule.firstMatch Rule.grammar text = none → Reads text [] text
  | take {l : Lexeme} {text rest : List Char} {ls : List Lexeme} :
      l.Valid → Rule.firstMatch Rule.grammar (l.chars ++ text) = some (l.kind, l.chars.length) →
      Reads text ls rest → Reads (l.chars ++ text) (l :: ls) rest

/-- The characters of lexemes in a row. -/
def spell (ls : List Lexeme) : List Char := ls.flatMap Lexeme.chars

/-- Nothing, or a comment that does not close. -/
def IsTail (rest : List Char) : Prop := rest = [] ∨ ∃ body, rest = '"' :: body ∧ '"' ∉ body

/-- Something other than a comment. -/
def Stuck (rest : List Char) : Prop := ∃ c t, rest = c :: t ∧ c ≠ '"'

variable {text rest tail : List Char} {ls : List Lexeme}

@[simp] theorem spell_nil : spell [] = [] := rfl

@[simp] theorem spell_cons (l : Lexeme) (ls : List Lexeme) :
    spell (l :: ls) = l.chars ++ spell ls := rfl

theorem spell_append (ls ms : List Lexeme) : spell (ls ++ ms) = spell ls ++ spell ms :=
  List.flatMap_append

theorem Reads.text_eq (h : Reads text ls rest) : text = spell ls ++ rest := by
  induction h with
  | stop => rfl
  | take _ _ _ ih => rw [spell_cons, List.append_assoc, ← ih]

theorem Reads.valid (h : Reads text ls rest) : ∀ l ∈ ls, l.Valid := by
  induction h with
  | stop => simp
  | take hl _ _ ih => exact List.forall_mem_cons.2 ⟨hl, ih⟩

theorem Reads.firstMatch_rest (h : Reads text ls rest) :
    Rule.firstMatch Rule.grammar rest = none := by
  induction h with
  | stop h => exact h
  | take _ _ _ ih => exact ih

/-- Every text is read. -/
theorem exists_reads (text : List Char) : ∃ ls rest, Reads text ls rest := by
  induction hn : text.length using Nat.strong_induction_on generalizing text with
  | _ n ih =>
      cases h : Rule.firstMatch Rule.grammar text with
      | none => exact ⟨[], text, .stop h⟩
      | some p =>
          obtain ⟨k, m⟩ := p
          obtain ⟨hpos, hle⟩ := Rule.firstMatch_bounds h
          obtain ⟨l, hl, hkind, hchars⟩ := Rule.exists_lexeme_of_firstMatch h
          have hlen : l.chars.length = m := by
            rw [hchars, List.length_take]
            omega
          have htext : l.chars ++ text.drop m = text := by rw [hchars, List.take_append_drop]
          have hshort : (text.drop m).length < n := by
            rw [List.length_drop]
            omega
          obtain ⟨ls, rest, hreads⟩ := ih _ hshort (text.drop m) rfl
          have hfirst : Rule.firstMatch Rule.grammar (l.chars ++ text.drop m) =
              some (l.kind, l.chars.length) := by rw [htext, h, hkind, hlen]
          rw [← htext]
          exact ⟨l :: ls, rest, .take hl hfirst hreads⟩

/-! ### Where reading stops -/

theorem firstMatch_of_isTail (h : IsTail tail) : Rule.firstMatch Rule.grammar tail = none := by
  obtain rfl | ⟨body, rfl, hbody⟩ := h
  · rfl
  · cases hm : Rule.firstMatch Rule.grammar ('"' :: body) with
    | none => rfl
    | some p =>
        obtain ⟨l, hl, _, hchars⟩ := Rule.exists_lexeme_of_firstMatch hm
        obtain ⟨m, hm'⟩ := Nat.exists_eq_add_of_lt (Rule.firstMatch_bounds hm).1
        rw [Nat.zero_add] at hm'
        rw [hm', List.take_succ_cons] at hchars
        rcases Lexeme.cases_of_chars_eq_cons hl hchars with ⟨_, _, _, _, hx, _⟩ | ⟨hx, _⟩ |
          ⟨_, inner, rfl⟩ | ⟨hx, _⟩
        · simp at hx
        · exact absurd hx (by decide)
        · have hmem : '"' ∈ body.take m := by
            rw [← (List.cons.inj hchars).2]
            simp
          exact absurd (List.mem_of_mem_take hmem) hbody
        · exact absurd hx (by decide)

theorem isTail_of_firstMatch (h : Rule.firstMatch Rule.grammar rest = none) (hs : ¬ Stuck rest) :
    IsTail rest := by
  cases rest with
  | nil => exact .inl rfl
  | cons c t =>
      have hc : c = '"' := by
        by_contra hc
        exact hs ⟨c, t, rfl, hc⟩
      subst hc
      refine .inr ⟨t, rfl, ?_⟩
      intro hmem
      obtain ⟨body, after, rfl, hbody⟩ := List.eq_append_cons_of_mem hmem
      have hm := Rule.firstMatch_comment hbody after
      rw [show (Lexeme.comment body).chars ++ after = '"' :: (body ++ '"' :: after) by
        simp [Lexeme.chars], h] at hm
      simp at hm

theorem not_stuck_of_isTail (h : IsTail tail) : ¬ Stuck tail := by
  rintro ⟨c, t, rfl, hc⟩
  obtain h | ⟨body, h, _⟩ := h
  · simp at h
  · exact hc (List.cons.inj h).1

/-! ### Rows of lexemes -/

theorem exists_lexeme_of_head? {x : Char} (ht : IsTail tail) (hv : ∀ l ∈ ls, l.Valid)
    (hx : (spell ls ++ tail).head? = some x) (hquote : x ≠ '"') :
    ∃ l ls' t, ls = l :: ls' ∧ l.Valid ∧ l.chars = x :: t := by
  cases ls with
  | nil =>
      obtain rfl | ⟨body, rfl, _⟩ := ht
      · simp at hx
      · simp at hx
        exact absurd hx.symm hquote
  | cons l ls =>
      have hl := hv l (by simp)
      cases hc : l.chars with
      | nil => exact absurd hc (Lexeme.chars_ne_nil hl)
      | cons y t =>
          have hy : y = x := by simpa [hc] using hx
          subst hy
          exact ⟨l, ls, t, rfl, hl, hc⟩

theorem Reads.take_closed {l : Lexeme} (hl : l.Valid) (hc : l.Closed text)
    (h : Reads text ls rest) : Reads (l.chars ++ text) (l :: ls) rest :=
  .take hl (Lexeme.firstMatch_lexeme hl hc) h

/-- A lexeme that is not closed is a bracket before an at sign, or blanks before blanks. -/
theorem cases_of_not_closed {l : Lexeme} (ht : IsTail tail) (hv : ∀ l ∈ ls, l.Valid)
    (hc : ¬ l.Closed (spell ls ++ tail)) :
    (∃ s n ls', l = .command s n (.perform (.opening .testFirst)) ∧
      ls = .command .global .absent (.perform (.closing .testLast)) :: ls') ∨
    ∃ cs cs' ls', l = .blank cs ∧ ls = .blank cs' :: ls' := by
  cases l with
  | command s n c =>
      simp only [Lexeme.Closed, Classical.not_imp, not_not] at hc
      obtain ⟨rfl, hx⟩ := hc
      obtain ⟨l, ls', t, rfl, hl, ht'⟩ := exists_lexeme_of_head? ht hv hx (by decide)
      rcases Lexeme.cases_of_chars_eq_cons hl ht' with ⟨_, _, _, _, _, hat⟩ | ⟨hx, _⟩ | ⟨hx, _⟩ |
        ⟨hx, _⟩
      · exact .inl ⟨s, n, ls', rfl, by rw [hat rfl]⟩
      all_goals exact absurd hx (by decide)
  | terminator cr lf =>
      have hx : ∃ x, (spell ls ++ tail).head? = some x ∧ (x = '\r' ∨ x = '\n') := by
        by_contra hno
        refine hc ⟨fun hr => hno ⟨_, hr, .inl rfl⟩, fun hn => hno ⟨_, hn, .inr rfl⟩⟩
      obtain ⟨x, hx, hend⟩ := hx
      obtain ⟨l, ls', t, rfl, hl, ht'⟩ := exists_lexeme_of_head? ht hv hx
        (by rcases hend with rfl | rfl <;> decide)
      rcases Lexeme.cases_of_chars_eq_cons hl ht' with ⟨_, _, _, _, hx, _⟩ | ⟨hx, _⟩ | ⟨hx, _⟩ |
        ⟨hx, _⟩
      all_goals rcases hend with rfl | rfl <;> exact absurd hx (by decide)
  | comment body => exact absurd trivial hc
  | blank cs =>
      simp only [Lexeme.Closed, not_forall, not_not] at hc
      obtain ⟨x, hx, hblank⟩ := hc
      obtain ⟨l, ls', t, rfl, hl, ht'⟩ := exists_lexeme_of_head? ht hv hx
        (by rintro rfl; exact absurd hblank (by decide))
      rcases Lexeme.cases_of_chars_eq_cons hl ht' with ⟨_, _, _, _, hx, _⟩ | ⟨rfl, _⟩ | ⟨rfl, _⟩ |
        ⟨_, cs', rfl⟩
      · exact absurd hblank fun hmem => hx (by simp_all)
      · exact absurd hblank (by decide)
      · exact absurd hblank (by decide)
      · exact .inr ⟨cs, cs', ls', rfl, rfl⟩

theorem lastKind_cons {l l' : Lexeme} {ls' : List Lexeme} (hl : l'.kind = l.kind)
    (h : ls'.getLast?.map Lexeme.kind = ls.getLast?.map Lexeme.kind) :
    (l' :: ls').getLast?.map Lexeme.kind = (l :: ls).getLast?.map Lexeme.kind := by
  rw [List.getLast?_cons, List.getLast?_cons]
  cases hls : ls.getLast? <;> cases hls' : ls'.getLast? <;> simp_all

/-- **The rules never get stuck in a row of lexemes.**  They may cut it in another way, but the
numbers in the counts and the kind of the last lexeme are the same. -/
theorem exists_reads_of_spell (ht : IsTail tail) (hv : ∀ l ∈ ls, l.Valid)
    (hf : ∀ l ∈ ls, l.Fits) :
    ∃ ls', Reads (spell ls ++ tail) ls' tail ∧ (∀ l ∈ ls', l.Fits) ∧
      ls'.getLast?.map Lexeme.kind = ls.getLast?.map Lexeme.kind := by
  induction hn : ls.length using Nat.strong_induction_on generalizing ls with
  | _ n ih =>
      subst hn
      cases ls with
      | nil => exact ⟨[], .stop (firstMatch_of_isTail ht), by simp, rfl⟩
      | cons l ls =>
          obtain ⟨hl, hv'⟩ := List.forall_mem_cons.1 hv
          obtain ⟨hfl, hf'⟩ := List.forall_mem_cons.1 hf
          by_cases hc : l.Closed (spell ls ++ tail)
          · obtain ⟨ls', hreads, hfits, hlast⟩ := ih ls.length (by simp) hv' hf' rfl
            refine ⟨l :: ls', ?_, List.forall_mem_cons.2 ⟨hfl, hfits⟩, lastKind_cons rfl hlast⟩
            rw [spell_cons, List.append_assoc]
            exact hreads.take_closed hl hc
          · rcases cases_of_not_closed ht hv' hc with ⟨s, n, ls₁, rfl, rfl⟩ |
              ⟨cs, cs', ls₁, rfl, rfl⟩
            · obtain rfl := Lexeme.count_eq_absent hl rfl
              obtain ⟨ls', hreads, hfits, hlast⟩ := ih ls₁.length
                (by simp only [List.length_cons]; omega)
                (List.forall_mem_cons.1 hv').2 (List.forall_mem_cons.1 hf').2 rfl
              have hclose : Lexeme.Valid (.command .global .absent
                  (.perform (.closing .testFirst))) := ⟨by simp, by simp, trivial⟩
              have hopen : Lexeme.Valid (.command s .absent (.perform (.opening .testLast))) :=
                ⟨fun _ => rfl, by simp, trivial⟩
              have hread := (hreads.take_closed hclose (by simp [Lexeme.Closed])).take_closed hopen
                (by simp [Lexeme.Closed])
              refine ⟨.command s .absent (.perform (.opening .testLast)) ::
                .command .global .absent (.perform (.closing .testFirst)) :: ls', ?_, ?_,
                lastKind_cons rfl (lastKind_cons rfl hlast)⟩
              · simpa [Lexeme.chars, Count.chars, Scope.chars, Command.lexeme] using hread
              · simpa [Lexeme.Fits, Count.Fits] using hfits
            · have hall : Lexeme.Valid (.blank (cs ++ cs')) := by
                have hl' := (List.forall_mem_cons.1 hv').1
                exact ⟨by simp [hl.1], List.forall_mem_append.2 ⟨hl.2, hl'.2⟩⟩
              obtain ⟨ls', hreads, hfits, hlast⟩ := ih (Lexeme.blank (cs ++ cs') :: ls₁).length
                (by simp) (List.forall_mem_cons.2 ⟨hall, (List.forall_mem_cons.1 hv').2⟩)
                (List.forall_mem_cons.2 ⟨trivial, (List.forall_mem_cons.1 hf').2⟩) rfl
              refine ⟨ls', ?_, hfits, ?_⟩
              · simpa [Lexeme.chars] using hreads
              · rw [hlast]
                cases ls₁ <;> rfl

end TwinTape
