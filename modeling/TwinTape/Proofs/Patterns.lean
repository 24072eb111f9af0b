import TwinTape.Proofs.FirstMatch

/-! # Rules as patterns

A rule computes the length of a token.  Here is what the token looks like: a pattern is a row of
characters of which some may be left out and some may be repeated.  A text may match it in several
ways.  `Pattern.lengths` lists how much of the text each of them takes, in the order of preference:
an optional part is preferred to nothing, a longer run to a shorter one, and what stands first in
the pattern decides first.  What the pattern takes is the head of this list (`Pattern.take?`).

Each rule of the language takes what its pattern takes (`length?_eq_take?`).  This needs care where
a part that could be shorter is followed by another part: the preferred way for the first part may
leave a text that the second part does not match.  In the patterns of the rules it never helps to
take less, since what follows a run begins with none of its characters (`lengths_many_seq`), and
what follows an optional part begins otherwise than this part (`lengths_maybe_seq`). -/

namespace TwinTape

/-- What a text may begin with. -/
inductive Pattern where
  | empty
  /-- One character of a class. -/
  | one (accepts : Char → Bool)
  | seq (first second : Pattern)
  /-- The part, or nothing. -/
  | maybe (part : Pattern)
  /-- Characters of a class, none or more. -/
  | many (accepts : Char → Bool)

namespace Pattern

/-- The lengths of the runs at the start of a text, the longest first. -/
def runs (accepts : Char → Bool) : List Char → List Nat
  | [] => [0]
  | c :: t => if accepts c then (runs accepts t).map (1 + ·) ++ [0] else [0]

/-- How many characters the pattern takes in each of the ways to match the start of a text, the
preferred way first. -/
def lengths : Pattern → List Char → List Nat
  | empty, _ => [0]
  | one accepts, text => if text.head?.any accepts then [1] else []
  | seq p q, text => (p.lengths text).flatMap fun n => (q.lengths (text.drop n)).map (n + ·)
  | maybe p, text => p.lengths text ++ [0]
  | many accepts, text => runs accepts text

/-- How many characters the pattern takes from the start of a text, if it matches. -/
def take? (p : Pattern) (text : List Char) : Option Nat := (p.lengths text).head?

/-- One character. -/
def char (c : Char) : Pattern := one (· == c)

/-- One digit at least. -/
def digits : Pattern := seq (one Char.isDigit) (many Char.isDigit)

/-- A decimal integer. -/
def integer : Pattern := seq (maybe (char '-')) digits

/-- Two bars with nothing or a decimal integer between them. -/
def count : Pattern := seq (char '|') (seq (maybe integer) (char '|'))

/-- The characters of a command. -/
def word (first : Char) (second : List Char) : Pattern :=
  seq (char first) (if second = [] then empty else one (· ∈ second))

end Pattern

/-- The pattern of the tokens of a rule. -/
def Rule.pattern : Rule → Pattern
  | command marked counted first second =>
    .seq (if marked then .maybe (.char '\x27') else .empty)
      (.seq (if counted then .maybe .count else .empty) (.word first second))
  | terminator => .seq (.char ':') (.seq (.maybe (.char '\r')) (.maybe (.char '\n')))
  | comment => .seq (.char '"') (.seq (.many (· != '"')) (.char '"'))
  | blanks => .seq (.one isBlank) (.many isBlank)

namespace Pattern
variable {p q : Pattern} {text : List Char} {accepts : Char → Bool}

/-! ### Ways to match a row of parts -/

theorem lengths_seq_assoc (p q r : Pattern) (text : List Char) :
    ((p.seq q).seq r).lengths text = (p.seq (q.seq r)).lengths text := by
  simp only [lengths, List.flatMap_assoc, List.flatMap_map, List.map_flatMap, List.map_map,
    List.drop_drop, Function.comp_def, Nat.add_assoc]

@[simp] theorem lengths_empty_seq (q : Pattern) (text : List Char) :
    (empty.seq q).lengths text = q.lengths text := by
  simp [lengths]

theorem lengths_one_seq (accepts : Char → Bool) (q : Pattern) (text : List Char) :
    ((one accepts).seq q).lengths text =
      if text.head?.any accepts then (q.lengths (text.drop 1)).map (1 + ·) else [] := by
  simp only [lengths]
  split <;> simp

/-- An optional part is taken if it is there, provided that what follows it cannot stand in its
place. -/
theorem lengths_maybe_seq (h : p.lengths text ≠ [] → q.lengths text = []) :
    ((maybe p).seq q).lengths text =
      if p.lengths text = [] then q.lengths text else (p.seq q).lengths text := by
  by_cases hp : p.lengths text = []
  · simp [lengths, hp]
  · simp [lengths, hp, h hp]

/-- The same for a part that is found in one way only, or is not in the pattern at all. -/
theorem lengths_optional_seq {n : Nat} (hp : p.lengths text = if n = 0 then [] else [n])
    (hq : n ≠ 0 → q.lengths text = []) (admitted : Bool) :
    ((if admitted then maybe p else empty).seq q).lengths text =
      (q.lengths (text.drop (if admitted then n else 0))).map
        ((if admitted then n else 0) + ·) := by
  cases admitted with
  | false => simp
  | true =>
      rw [if_pos rfl, if_pos rfl]
      by_cases hn : n = 0
      · subst hn
        rw [if_pos rfl] at hp
        rw [lengths_maybe_seq (fun h => absurd hp h), if_pos hp]
        simp
      · rw [if_neg hn] at hp
        rw [lengths_maybe_seq (fun _ => hq hn), if_neg (by simp [hp])]
        simp [lengths, hp]

theorem head?_runs (accepts : Char → Bool) (text : List Char) :
    (runs accepts text).head? = some (text.takeWhile accepts).length := by
  induction text with
  | nil => rfl
  | cons c t ih =>
      by_cases hc : accepts c
      · simp [runs, hc, ih, Nat.add_comm 1]
      · simp [runs, hc]

/-- A run is taken to its end, provided that what follows it begins with none of its characters. -/
theorem lengths_many_seq (hq : ∀ text, text.head?.any accepts → q.lengths text = [])
    (text : List Char) :
    ((many accepts).seq q).lengths text =
      (q.lengths (text.drop (text.takeWhile accepts).length)).map
        ((text.takeWhile accepts).length + ·) := by
  induction text with
  | nil => simp [lengths, runs]
  | cons c t ih =>
      by_cases hc : accepts c
      · have hnone : q.lengths (c :: t) = [] := hq (c :: t) hc
        have hruns : ((many accepts).seq q).lengths (c :: t) =
            (((many accepts).seq q).lengths t).map (1 + ·) := by
          simp [lengths, runs, hc, hnone, List.flatMap_map, List.map_flatMap, Function.comp_def,
            Nat.add_comm 1, Nat.add_right_comm]
        rw [hruns, ih, List.takeWhile_cons_of_pos hc, List.map_map]
        simp [Function.comp_def, Nat.add_comm 1, Nat.add_right_comm]
      · simp [lengths, runs, hc]

/-! ### Counts -/

theorem lengths_char (c : Char) (text : List Char) :
    (char c).lengths text = if text.head? = some c then [1] else [] := by
  cases text <;> simp [char, lengths]

theorem lengths_char_seq (c : Char) (q : Pattern) (text : List Char) :
    ((char c).seq q).lengths text =
      if text.head? = some c then (q.lengths (text.drop 1)).map (1 + ·) else [] := by
  rw [char, lengths_one_seq]
  cases text <;> simp

theorem lengths_char_of_any {c : Char} (hc : accepts c = false) {text : List Char}
    (h : text.head?.any accepts) : (char c).lengths text = [] := by
  rw [lengths_char, if_neg]
  intro hchar
  rw [hchar, Option.any_some, hc] at h
  exact Bool.false_ne_true h

theorem lengths_digits_bar (text : List Char) :
    (digits.seq (char '|')).lengths text =
      if (text.takeWhile Char.isDigit).length ≠ 0 ∧
          (text.drop (text.takeWhile Char.isDigit).length).head? = some '|' then
        [(text.takeWhile Char.isDigit).length + 1] else [] := by
  have hbar : ∀ text : List Char, text.head?.any Char.isDigit → (char '|').lengths text = [] :=
    fun _ => lengths_char_of_any (by decide)
  rw [digits, lengths_seq_assoc, lengths_one_seq]
  cases text with
  | nil => simp
  | cons c t =>
      by_cases hc : c.isDigit = true
      · simp only [List.head?_cons, Option.any_some, hc, if_true, lengths_many_seq hbar,
          lengths_char, List.takeWhile_cons_of_pos, List.length_cons, List.drop_succ_cons]
        split <;> simp_all [Nat.add_comm 1]
      · simp [hc]

theorem lengths_digits_eq_nil_iff (text : List Char) :
    digits.lengths text = [] ↔ (text.takeWhile Char.isDigit).length = 0 := by
  rw [digits, lengths_one_seq]
  cases text with
  | nil => simp
  | cons c t =>
      have hruns : runs Char.isDigit t ≠ [] := by
        intro h
        simpa [h] using head?_runs Char.isDigit t
      by_cases hc : c.isDigit = true <;> simp [hc, lengths, hruns]

theorem lengths_minus (text : List Char) :
    (char '-').lengths text =
      if Rule.minusLength text = 0 then [] else [Rule.minusLength text] := by
  cases text with
  | nil => rfl
  | cons c t => by_cases hc : c = '-' <;> simp [lengths_char, Rule.minusLength, hc]

theorem head?_of_minusLength (h : Rule.minusLength text ≠ 0) : text.head? = some '-' := by
  unfold Rule.minusLength at h
  split at h
  · rfl
  · exact absurd rfl h

/-- Number of digits at the start of a text, after the sign if there is one. -/
def digitsLength (text : List Char) : Nat :=
  ((text.drop (Rule.minusLength text)).takeWhile Char.isDigit).length

theorem lengths_minus_seq (hq : text.head? = some '-' → q.lengths text = []) :
    ((maybe (char '-')).seq q).lengths text =
      (q.lengths (text.drop (Rule.minusLength text))).map (Rule.minusLength text + ·) :=
  lengths_optional_seq (lengths_minus text) (fun h => hq (head?_of_minusLength h)) true

theorem lengths_integer_eq_nil_iff (text : List Char) :
    integer.lengths text = [] ↔ digitsLength text = 0 := by
  have hminus : text.head? = some '-' → digits.lengths text = [] := by
    intro h
    rw [digits, lengths_one_seq, h]
    rfl
  rw [integer, lengths_minus_seq hminus, List.map_eq_nil_iff, lengths_digits_eq_nil_iff,
    digitsLength]

theorem lengths_integer_bar (text : List Char) :
    (integer.seq (char '|')).lengths text =
      if digitsLength text ≠ 0 ∧
          (text.drop (Rule.minusLength text + digitsLength text)).head? = some '|' then
        [Rule.minusLength text + digitsLength text + 1] else [] := by
  have hminus : text.head? = some '-' → (digits.seq (char '|')).lengths text = [] := by
    intro h
    rw [digits, lengths_seq_assoc, lengths_one_seq, h]
    rfl
  rw [integer, lengths_seq_assoc, lengths_minus_seq hminus, lengths_digits_bar, List.drop_drop,
    ← digitsLength]
  split
  · simp [Nat.add_assoc]
  · rfl

theorem countLength_cons_bar (t : List Char) :
    Rule.countLength ('|' :: t) =
      if (t.drop (Rule.minusLength t + digitsLength t)).head? = some '|' ∧
          (digitsLength t = 0 → Rule.minusLength t = 0) then
        Rule.minusLength t + digitsLength t + 2
      else 0 := by
  rw [Rule.countLength, digitsLength]
  generalize ((t.drop (Rule.minusLength t)).takeWhile Char.isDigit).length = digits
  generalize Rule.minusLength t = sign
  cases t.drop (sign + digits) with
  | nil => simp
  | cons c u =>
      by_cases hc : c = '|'
      · subst hc
        by_cases hd : digits = 0 <;> by_cases hs : sign = 0 <;> simp [hd, hs, Nat.pos_iff_ne_zero]
      · simp [hc]

theorem lengths_count (text : List Char) :
    count.lengths text = if Rule.countLength text = 0 then [] else [Rule.countLength text] := by
  rw [count, lengths_char_seq]
  cases text with
  | nil => rfl
  | cons c t =>
      by_cases hc : c = '|'
      · subst hc
        have hbar : integer.lengths t ≠ [] → (char '|').lengths t = [] := by
          intro h
          rw [lengths_char, if_neg]
          intro hbar
          apply h
          rw [lengths_integer_eq_nil_iff]
          cases t with
          | nil => rfl
          | cons d u =>
              obtain rfl : d = '|' := by simpa using hbar
              rfl
        simp only [List.head?_cons, if_true, List.drop_succ_cons, List.drop_zero,
          lengths_maybe_seq hbar, lengths_integer_eq_nil_iff, lengths_integer_bar,
          lengths_char, countLength_cons_bar]
        by_cases hd : digitsLength t = 0
        · by_cases hs : Rule.minusLength t = 0
          · by_cases hbar : t.head? = some '|' <;> simp [hd, hs, hbar]
          · simp [hd, hs, head?_of_minusLength hs]
        · by_cases hend : t[Rule.minusLength t + digitsLength t]? = some '|'
          · simp [hd, hend, Nat.add_comm 1]
          · simp [hd, hend]
      · rw [if_neg (by simpa using hc), Rule.countLength_of_ne hc]
        rfl

end Pattern

/-! ### Rules -/

namespace Rule
variable {text : List Char}

theorem lengths_word (first : Char) (second text : List Char) :
    (Pattern.word first second).lengths text = (commandLength? first second text).toList := by
  rw [Pattern.word, Pattern.lengths_char_seq]
  cases text with
  | nil => rfl
  | cons c t =>
      by_cases hc : c = first
      · by_cases hs : second = []
        · simp [commandLength?, hc, hs, Pattern.lengths]
        · cases t with
          | nil => simp [commandLength?, hc, hs, Pattern.lengths]
          | cons d u =>
              by_cases hd : d ∈ second <;> simp [commandLength?, hc, hs, hd, Pattern.lengths]
      · simp [commandLength?, hc]

theorem lengths_mark (text : List Char) :
    (Pattern.char '\x27').lengths text = if markLength text = 0 then [] else [markLength text] := by
  cases text with
  | nil => rfl
  | cons c t => by_cases hc : c = '\x27' <;> simp [Pattern.lengths_char, markLength, hc]

/-- A command is found in one way only. -/
theorem lengths_command {marked counted : Bool} {first : Char} {second : List Char}
    (hr : command marked counted first second ∈ grammar) (text : List Char) :
    (command marked counted first second).pattern.lengths text =
      ((command marked counted first second).length? text).toList := by
  have hbar : ∀ text, countLength text ≠ 0 → commandLength? first second text = none := by
    intro text h
    obtain ⟨t, rfl⟩ := exists_cons_of_countLength h
    exact commandLength?_of_inert hr (by decide) t
  have hcounted : ∀ text, (Pattern.seq (if counted then .maybe .count else .empty)
      (.word first second)).lengths text =
        ((commandLength? first second (text.drop (if counted then countLength text else 0))).map
          ((if counted then countLength text else 0) + ·)).toList := by
    intro text
    rw [Pattern.lengths_optional_seq (Pattern.lengths_count text), lengths_word,
      Option.toList_map]
    intro h
    rw [lengths_word, hbar text h]
    rfl
  have hmark : markLength text ≠ 0 →
      (Pattern.seq (if counted then .maybe .count else .empty)
        (.word first second)).lengths text = [] := by
    intro h
    obtain ⟨t, rfl⟩ := exists_cons_of_markLength h
    rw [hcounted, countLength_of_ne (by decide), ite_self, List.drop_zero,
      commandLength?_of_inert hr (by decide)]
    rfl
  rw [pattern, Pattern.lengths_optional_seq (lengths_mark text) hmark, hcounted, length?,
    Option.toList_map, Option.toList_map, List.map_map, List.drop_drop]
  simp [Function.comp_def, Nat.add_assoc]

theorem take?_terminator (text : List Char) :
    terminator.pattern.take? text = terminator.length? text := by
  rw [pattern, Pattern.take?, Pattern.lengths_char_seq]
  cases text with
  | nil => rfl
  | cons c t =>
      by_cases hc : c = ':'
      · subst hc
        cases t with
        | nil => rfl
        | cons d u =>
            by_cases hcr : d = '\r'
            · subst hcr
              cases u with
              | nil => rfl
              | cons e v =>
                  by_cases hlf : e = '\n' <;>
                    simp [length?, Pattern.lengths, Pattern.lengths_char, hlf]
            · by_cases hlf : d = '\n' <;>
                simp [length?, Pattern.lengths, Pattern.lengths_char, hcr, hlf]
      · simp [hc, length?]

theorem take?_comment (text : List Char) :
    comment.pattern.take? text = comment.length? text := by
  have hquote : ∀ text : List Char, text.head?.any (· != '"') →
      (Pattern.char '"').lengths text = [] := fun _ => Pattern.lengths_char_of_any (by decide)
  rw [pattern, Pattern.take?, Pattern.lengths_char_seq]
  cases text with
  | nil => rfl
  | cons c t =>
      by_cases hc : c = '"'
      · subst hc
        rw [List.head?_cons, if_pos rfl, List.drop_succ_cons, List.drop_zero,
          Pattern.lengths_many_seq hquote, Pattern.lengths_char]
        by_cases hlt : (t.takeWhile (· != '"')).length < t.length
        · have hend : (t.drop (t.takeWhile (· != '"')).length).head? = some '"' := by
            have hone := take_one_of_untilQuote hlt
            cases hdrop : t.drop (t.takeWhile (· != '"')).length with
            | nil => simp [hdrop] at hone
            | cons d u => simpa [hdrop] using hone
          rw [if_pos hend]
          simp [length?, hlt, Nat.add_comm 1]
        · rw [List.drop_eq_nil_of_le (Nat.le_of_not_lt hlt)]
          simp [length?, hlt]
      · simp [hc, length?]

theorem take?_blanks (text : List Char) :
    blanks.pattern.take? text = blanks.length? text := by
  rw [pattern, Pattern.take?, Pattern.lengths_one_seq]
  cases text with
  | nil => rfl
  | cons c t =>
      by_cases hc : isBlank c = true
      · simp [hc, length?, Pattern.lengths, Pattern.head?_runs, Nat.add_comm 1]
      · simp [hc, length?]

/-- Every rule of the language takes what its pattern takes. -/
theorem length?_eq_take? {r : Rule} (hr : r ∈ grammar) (text : List Char) :
    r.length? text = r.pattern.take? text := by
  cases r with
  | command marked counted first second =>
      rw [Pattern.take?, lengths_command hr, Option.head?_toList]
  | terminator => rw [take?_terminator]
  | comment => rw [take?_comment]
  | blanks => rw [take?_blanks]

end Rule
end TwinTape
