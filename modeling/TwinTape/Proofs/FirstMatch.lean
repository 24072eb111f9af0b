import TwinTape.Proofs.Lexeme
import TwinTape.Proofs.Overlaps
import Mathlib.Data.List.TakeWhile

/-! # The first rule that matches

* What a rule takes is a lexeme (`exists_lexeme_of_firstMatch`).
* A lexeme at the start of a text is what the first matching rule takes, unless the text goes on
  in a way that makes a longer lexeme of it (`firstMatch_lexeme`): a blank after blanks, a carriage
  return or a line feed after a terminator, an at sign after a bracket (`Lexeme.Closed`). -/

namespace TwinTape.Rule

/-! ### What a rule takes -/

/-- What may stand before the command of a rule: a scope mark, a count. -/
def admits : Rule → Bool × Bool
  | command marked counted _ _ => (marked, counted)
  | _ => (false, false)

theorem exists_command_of_spelling {r : Rule} (hr : r ∈ grammar) {sp : List Char}
    (hsp : sp ∈ r.spellings) :
    ∃ c : Command, c.lexeme = sp ∧ r.admits = (c.acceptsScope, c.acceptsRepeat) := by
  have h : ∀ r ∈ grammar, ∀ sp ∈ r.spellings, ∃ c ∈ Command.all,
      c.lexeme = sp ∧ r.admits = (c.acceptsScope, c.acceptsRepeat) := by decide
  obtain ⟨c, _, hc⟩ := h r hr sp hsp
  exact ⟨c, hc⟩

theorem exists_scope_of_markLength (text : List Char) :
    ∃ s : Scope, s.chars = text.take (markLength text) := by
  unfold markLength
  split
  · exact ⟨.local, rfl⟩
  · exact ⟨.global, rfl⟩

theorem take_numeral {t u : List Char}
    (h : t.drop (minusLength t + ((t.drop (minusLength t)).takeWhile Char.isDigit).length) =
      '|' :: u) :
    t.take (minusLength t + ((t.drop (minusLength t)).takeWhile Char.isDigit).length + 1) =
      Count.numeral (minusLength t ≠ 0) ((t.drop (minusLength t)).takeWhile Char.isDigit) ++
        ['|'] := by
  have hdigits : (t.drop (minusLength t)).take
      ((t.drop (minusLength t)).takeWhile Char.isDigit).length =
        (t.drop (minusLength t)).takeWhile Char.isDigit :=
    (List.prefix_iff_eq_take.1 (List.takeWhile_prefix _)).symm
  have hsign : t.take (minusLength t) = if minusLength t = 0 then [] else ['-'] := by
    unfold minusLength
    split <;> rfl
  rw [List.take_add, h, List.take_add, hdigits, hsign, Count.numeral]
  by_cases h0 : minusLength t = 0
  · simp [h0]
  · simp [h0]

theorem exists_count_of_countLength (text : List Char) :
    ∃ n : Count, n.Valid ∧ n.chars = text.take (countLength text) := by
  unfold countLength
  split
  · rename_i t
    have hdigits : ∀ d ∈ (t.drop (minusLength t)).takeWhile Char.isDigit, d.isDigit := by
      intro d hd
      exact List.mem_takeWhile_imp hd
    dsimp only
    split
    · rename_i u hbar
      have htake := take_numeral hbar
      by_cases hnone : (t.drop (minusLength t)).takeWhile Char.isDigit = []
      · by_cases h0 : minusLength t = 0
        · refine ⟨.byCell, trivial, ?_⟩
          rw [hnone, h0] at htake
          have hone : t.take 1 = ['|'] := htake
          rw [hnone]
          simp [h0, Count.chars, hone]
        · refine ⟨.absent, trivial, ?_⟩
          simp [hnone, Nat.pos_of_ne_zero h0, Count.chars]
      · refine ⟨.fixed (minusLength t ≠ 0) _, ⟨hnone, hdigits⟩, ?_⟩
        rw [if_neg (by simp [hnone]), Count.chars, ← htake]
        rfl
    · exact ⟨.absent, trivial, rfl⟩
  · exact ⟨.absent, trivial, rfl⟩

theorem take_one_of_untilQuote {t : List Char}
    (h : (t.takeWhile (· != '"')).length < t.length) :
    (t.drop (t.takeWhile (· != '"')).length).take 1 = ['"'] := by
  induction t with
  | nil => simp at h
  | cons c t ih =>
      by_cases hc : c = '"'
      · subst hc
        rfl
      · have hp : (c != '"') = true := bne_iff_ne.2 hc
        have hcons : (c :: t).takeWhile (· != '"') = c :: t.takeWhile (· != '"') :=
          List.takeWhile_cons_of_pos hp
        rw [hcons] at h ⊢
        exact ih (by simpa using h)

/-- What a rule takes is a lexeme. -/
theorem exists_lexeme_of_length? {r : Rule} (hr : r ∈ grammar) {text : List Char} {n : Nat}
    (h : r.length? text = some n) :
    ∃ l : Lexeme, l.Valid ∧ l.kind = r.kind ∧ l.chars = text.take n := by
  cases r with
  | command marked counted first second =>
      obtain ⟨k, hk, rfl⟩ := Option.map_eq_some_iff.1 h
      obtain ⟨c, hc, hadmits⟩ :=
        exists_command_of_spelling hr (exists_spelling_of_commandLength? hk)
      obtain ⟨hmarked, hcounted⟩ := Prod.mk.inj hadmits
      have hs : ∃ s : Scope, (s = .local → c.acceptsScope) ∧
          s.chars = text.take (if marked then markLength text else 0) := by
        cases marked with
        | true =>
            obtain ⟨s, hs⟩ := exists_scope_of_markLength text
            exact ⟨s, fun _ => hmarked.symm, hs⟩
        | false => exact ⟨.global, by simp, rfl⟩
      obtain ⟨s, hscope, hs⟩ := hs
      generalize (if marked then markLength text else 0) = mark at h hk hc hs
      have hn : ∃ m : Count, (m ≠ .absent → c.acceptsRepeat) ∧ m.Valid ∧
          m.chars =
            (text.drop mark).take (if counted then countLength (text.drop mark) else 0) := by
        cases counted with
        | true =>
            obtain ⟨m, hm, hchars⟩ := exists_count_of_countLength (text.drop mark)
            exact ⟨m, fun _ => hcounted.symm, hm, hchars⟩
        | false => exact ⟨.absent, by simp, trivial, rfl⟩
      obtain ⟨m, hrepeat, hm, hn⟩ := hn
      refine ⟨.command s m c, ⟨hscope, hrepeat, hm⟩, rfl, ?_⟩
      rw [Lexeme.chars, List.take_add, List.take_add, hs, hn, hc, List.append_assoc]
  | terminator =>
      unfold length? at h
      split at h
      all_goals first | contradiction | cases h
      · exact ⟨.terminator true true, trivial, rfl, rfl⟩
      · exact ⟨.terminator true false, trivial, rfl, rfl⟩
      · exact ⟨.terminator false true, trivial, rfl, rfl⟩
      · exact ⟨.terminator false false, trivial, rfl, rfl⟩
  | comment =>
      unfold length? at h
      split at h
      all_goals try contradiction
      rename_i t heq
      cases heq
      simp only [Option.ite_none_right_eq_some, Option.some.injEq] at h
      obtain ⟨hlt, rfl⟩ := h
      have hbody : t.take (t.takeWhile (· != '"')).length = t.takeWhile (· != '"') :=
        (List.prefix_iff_eq_take.1 (List.takeWhile_prefix _)).symm
      have hquote := take_one_of_untilQuote hlt
      refine ⟨.comment (t.takeWhile (· != '"')), ?_, rfl, ?_⟩
      · intro hmem
        have := List.mem_takeWhile_imp hmem
        simp at this
      · rw [Lexeme.chars, List.take_succ_cons, List.take_add, hbody, hquote]
  | blanks =>
      simp only [length?, Option.ite_none_left_eq_some, Option.some.injEq] at h
      obtain ⟨hne, rfl⟩ := h
      refine ⟨.blank (text.takeWhile isBlank), ⟨?_, ?_⟩, rfl, ?_⟩
      · intro hnil
        simp [hnil] at hne
      · intro c hc
        have := List.mem_takeWhile_imp hc
        simpa [isBlank, or_assoc] using this
      · exact List.prefix_iff_eq_take.1 (List.takeWhile_prefix _)

theorem exists_lexeme_of_firstMatch {text : List Char} {k : Token.Kind} {n : Nat}
    (h : firstMatch grammar text = some (k, n)) :
    ∃ l : Lexeme, l.Valid ∧ l.kind = k ∧ l.chars = text.take n := by
  obtain ⟨r, hr, hmatch⟩ := List.exists_of_findSome?_eq_some h
  obtain ⟨m, hm, heq⟩ := Option.map_eq_some_iff.1 hmatch
  cases heq
  exact exists_lexeme_of_length? hr hm

/-! ### Which rule matches first -/

/-- A text that begins neither with a bracket nor with a scope mark is left to any rule that matches
it. -/
theorem firstMatch_of_ne {r : Rule} {x : Char} {t : List Char} {n : Nat} (hx : x ≠ '[')
    (hmark : x ≠ '\x27') (hr : r ∈ grammar) (hlen : r.length? (x :: t) = some n) :
    firstMatch grammar (x :: t) = some (r.kind, n) :=
  firstMatch_of_not_beginsLong (.refl _) (not_beginsLong_of_ne hx hmark t) hr hlen

theorem firstMatch_terminator {cr lf : Bool} {rest : List Char}
    (hcr : rest.head? ≠ some '\r') (hlf : rest.head? ≠ some '\n') :
    firstMatch grammar ((Lexeme.terminator cr lf).chars ++ rest) =
      some (.terminator, (Lexeme.terminator cr lf).chars.length) := by
  have hlen : terminator.length? ((Lexeme.terminator cr lf).chars ++ rest) =
      some (Lexeme.terminator cr lf).chars.length := by
    cases rest with
    | nil => cases cr <;> cases lf <;> rfl
    | cons d rest =>
        have hr : d ≠ '\r' := by simpa using hcr
        have hn : d ≠ '\n' := by simpa using hlf
        cases cr <;> cases lf <;> simp [Lexeme.chars, length?, hr, hn]
  exact firstMatch_of_ne (by decide) (by decide) (by decide) hlen

theorem firstMatch_comment {body : List Char} (hb : '"' ∉ body) (rest : List Char) :
    firstMatch grammar ((Lexeme.comment body).chars ++ rest) =
      some (.comment, (Lexeme.comment body).chars.length) := by
  have hpos : ∀ x ∈ body, (x != '"') = true := by
    intro x hx
    apply bne_iff_ne.2
    rintro rfl
    exact hb hx
  have hlen : comment.length? ((Lexeme.comment body).chars ++ rest) =
      some (Lexeme.comment body).chars.length := by
    have hsplit : (Lexeme.comment body).chars ++ rest = '"' :: (body ++ '"' :: rest) := by
      simp [Lexeme.chars]
    have htake : (body ++ '"' :: rest).takeWhile (· != '"') = body := by
      rw [List.takeWhile_append_of_pos hpos]
      simp
    rw [hsplit, length?, htake]
    simp [Lexeme.chars]
  exact firstMatch_of_ne (by decide) (by decide) (by decide) hlen

theorem firstMatch_blank {cs rest : List Char} (hv : (Lexeme.blank cs).Valid)
    (hrest : ∀ x, rest.head? = some x → x ∉ [' ', '\t', '\x0b', '\x0c']) :
    firstMatch grammar (cs ++ rest) = some (.blank, cs.length) := by
  obtain ⟨hne, hall⟩ := hv
  have hlen : blanks.length? (cs ++ rest) = some cs.length := by
    have htake : (cs ++ rest).takeWhile isBlank = cs := by
      rw [List.takeWhile_append_of_pos fun x hx => isBlank_iff.2 (hall x hx)]
      cases rest with
      | nil => simp
      | cons x rest =>
          have hx : ¬ isBlank x = true := fun h => hrest x rfl (isBlank_iff.1 h)
          simp [hx]
    rw [length?, htake]
    simp [hne]
  cases cs with
  | nil => exact absurd rfl hne
  | cons x cs =>
      have hx := hall x (by simp)
      have hne : x ≠ '[' ∧ x ≠ '\x27' := by
        constructor <;> rintro rfl <;> exact absurd hx (by decide)
      exact firstMatch_of_ne hne.1 hne.2 (by decide) hlen

/-! ### Commands -/

/-- A command without a count.  The bracket of one character needs a look at what follows. -/
theorem firstMatch_plain {s : Scope} {c : Command} (hs : s = .local → c.acceptsScope)
    {rest : List Char} (hrest : c = .perform (.opening .testFirst) → rest.head? ≠ some '@') :
    firstMatch grammar (s.chars ++ (c.lexeme ++ rest)) =
      some (.command, (s.chars ++ c.lexeme).length) := by
  by_cases hc : c = .perform (.opening .testFirst)
  · subst hc
    cases rest with
    | nil => cases s <;> rfl
    | cons d rest =>
        have hd : d ≠ '@' := by simpa using hrest rfl
        cases s <;> simp [firstMatch, grammar, length?, commandLength?, markLength, countLength,
          Scope.chars, Command.lexeme, hd, kind]
  · cases c with
    | act a => cases a <;> cases s <;> rfl
    | swap =>
        cases s with
        | global => rfl
        | «local» => exact absurd (hs rfl) (by decide)
    | perform o =>
        cases o with
        | random | switchTape => cases s <;> rfl
        | input m | output m => cases m <;> cases s <;> rfl
        | reserved w => cases w <;> cases s <;> rfl
        | closing form => cases form <;> cases s <;> rfl
        | opening form =>
            cases form with
            | testFirst => exact absurd rfl hc
            | testLast => cases s <;> rfl

theorem countLength_append {n : Count} (hn : n.Valid) (hne : n ≠ .absent) (t : List Char) :
    countLength (n.chars ++ t) = n.chars.length := by
  cases n with
  | absent => exact absurd rfl hne
  | byCell => rfl
  | fixed negative digits =>
      obtain ⟨hdne, hd⟩ := hn
      have hdigits : (digits ++ '|' :: t).takeWhile Char.isDigit = digits := by
        rw [List.takeWhile_append_of_pos hd]
        simp
      have hsplit : (Count.fixed negative digits).chars ++ t =
          '|' :: (Count.numeral negative digits ++ '|' :: t) := by simp [Count.chars]
      rw [hsplit]
      cases negative with
      | true =>
          simp [countLength, Count.numeral, Count.chars, minusLength, hdigits, hdne,
            Nat.add_comm 1 digits.length]
      | false =>
          have hminus : minusLength (digits ++ '|' :: t) = 0 := by
            cases digits with
            | nil => exact absurd rfl hdne
            | cons d ds => simp [minusLength, (Count.digit_ne (hd d (by simp))).1]
          simp [countLength, Count.numeral, Count.chars, hminus, hdigits]

theorem markLength_append {x : Char} (hx : x ≠ '\x27') (s : Scope) (t : List Char) :
    markLength (s.chars ++ x :: t) = s.chars.length := by
  cases s with
  | global => exact markLength_of_ne hx t
  | «local» => rfl

theorem firstMatch_counted {n : Count} (hn : n.Valid) (hne : n ≠ .absent) (s : Scope) (a : Action)
    (rest : List Char) :
    firstMatch grammar (s.chars ++ (n.chars ++ ((Command.act a).lexeme ++ rest))) =
      some (.command, s.chars.length + n.chars.length + 1) := by
  obtain ⟨y, hy, hrule⟩ : ∃ y, (Command.act a).lexeme = [y] ∧ command true true y [] ∈ grammar := by
    cases a <;> exact ⟨_, rfl, by decide⟩
  obtain ⟨u, hu⟩ : ∃ u, n.chars ++ ((Command.act a).lexeme ++ rest) = '|' :: u := by
    cases n with
    | absent => exact absurd rfl hne
    | byCell | fixed => exact ⟨_, rfl⟩
  have hmark : markLength (s.chars ++ '|' :: u) = s.chars.length :=
    markLength_append (by decide) s u
  have hcount : countLength ('|' :: u) = n.chars.length := by
    rw [← hu]
    exact countLength_append hn hne _
  have hdrop : ('|' :: u).drop n.chars.length = y :: rest := by
    rw [← hu, hy]
    simp
  have hlen : (command true true y []).length? (s.chars ++ '|' :: u) =
      some (s.chars.length + n.chars.length + 1) := by
    simp [length?, hmark, hcount, ← List.drop_drop, hdrop, commandLength?]
  have hlong : ¬ BeginsLong (s.chars ++ '|' :: u) := by
    cases s with
    | global => exact not_beginsLong_of_ne (by decide) (by decide) u
    | «local» =>
        rintro (⟨v, hv⟩ | ⟨v, hv⟩)
        · exact absurd (List.cons.inj hv).1 (by decide)
        · exact absurd (List.cons.inj (List.cons.inj hv).2).1 (by decide)
  rw [hu]
  exact firstMatch_of_not_beginsLong (.refl _) hlong hrule hlen

end TwinTape.Rule

namespace TwinTape.Lexeme

/-- What follows does not make a longer lexeme of this one. -/
def Closed : Lexeme → List Char → Prop
  | command _ _ c, rest => c = .perform (.opening .testFirst) → rest.head? ≠ some '@'
  | terminator .., rest => rest.head? ≠ some '\r' ∧ rest.head? ≠ some '\n'
  | comment _, _ => True
  | blank _, rest => ∀ x, rest.head? = some x → x ∉ [' ', '\t', '\x0b', '\x0c']

/-- A closed lexeme is what the first matching rule takes. -/
theorem firstMatch_lexeme {l : Lexeme} (hl : l.Valid) {rest : List Char} (hc : l.Closed rest) :
    Rule.firstMatch Rule.grammar (l.chars ++ rest) = some (l.kind, l.chars.length) := by
  cases l with
  | command s n c =>
      by_cases hne : n = .absent
      · subst hne
        have h := Rule.firstMatch_plain hl.1 hc
        rw [← List.append_assoc] at h
        exact h
      · cases c with
        | act a =>
            have h := Rule.firstMatch_counted hl.2.2 hne s a rest
            have hone : (Command.act a).lexeme.length = 1 := by cases a <;> rfl
            have hlen : (command s n (.act a)).chars.length =
                s.chars.length + n.chars.length + 1 := by
              simp only [chars, List.length_append, hone]
              omega
            rw [hlen, chars, List.append_assoc, List.append_assoc]
            exact h
        | perform o => exact absurd (count_eq_absent hl rfl) hne
        | swap => exact absurd (count_eq_absent hl rfl) hne
  | terminator cr lf => exact Rule.firstMatch_terminator hc.1 hc.2
  | comment body => exact Rule.firstMatch_comment hl rest
  | blank cs => exact Rule.firstMatch_blank hl hc

end TwinTape.Lexeme
