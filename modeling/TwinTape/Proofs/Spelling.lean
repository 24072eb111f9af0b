import TwinTape.Proofs.Compile
import Mathlib.Data.List.Induction

/-! # Written programs

What is printed can be read again.

* A number is printed without a plus sign, without leading zeros and zero without a minus sign, and
  of the numerals that are read as the number it is the only one of this form
  (`integerChars_eq_iff`).
* So an instruction is read from its written form (`decode_chars_self`), and a written form that is
  read is that of the instruction just if its count is `Canonical` (`chars_eq_iff`).
* The text of a program and a colon is a row of lexemes that the rules take one by one
  (`reads_row`), so it is a program with the same instructions and the same jumps
  (`text_round_trips`). -/

namespace TwinTape

/-! ### Decimal digits -/

section digits
variable {d : Char} {ds : List Char}

theorem exists_digitChar (hd : d.isDigit) : ∃ v < 10, d = v.digitChar := by
  obtain ⟨hlow, hhigh⟩ := Char.isDigit_iff_toNat.1 hd
  have h0 : '0'.toNat = 48 := rfl
  have h9 : '9'.toNat = 57 := rfl
  refine ⟨d.toNat - 48, by omega, ?_⟩
  apply Char.toNat_inj.1
  rw [Nat.toNat_digitChar_of_lt_ten (by omega)]
  omega

theorem ofDigitChars_concat (ds : List Char) {v : ℕ} (hv : v < 10) :
    Nat.ofDigitChars 10 (ds ++ [v.digitChar]) 0 = 10 * Nat.ofDigitChars 10 ds 0 + v := by
  rw [Nat.ofDigitChars_append, Nat.ofDigitChars_cons_digitChar_of_lt_ten hv, Nat.ofDigitChars_nil]

theorem toDigits_ofDigitChars (hne : ds ≠ []) (hd : ∀ d ∈ ds, d.isDigit)
    (hlead : ds.head? ≠ some '0') :
    0 < Nat.ofDigitChars 10 ds 0 ∧ Nat.toDigits 10 (Nat.ofDigitChars 10 ds 0) = ds := by
  induction ds using List.reverseRecOn with
  | nil => exact absurd rfl hne
  | append_singleton ds d ih =>
      obtain ⟨hds, hlast⟩ := List.forall_mem_append.1 hd
      obtain ⟨v, hv, rfl⟩ := exists_digitChar (hlast d (List.mem_singleton_self d))
      rw [ofDigitChars_concat ds hv]
      cases ds with
      | nil =>
          have hzero : v ≠ 0 := by
            rintro rfl
            exact hlead rfl
          rw [Nat.ofDigitChars_nil, Nat.mul_zero, Nat.zero_add, Nat.toDigits_of_lt_base hv]
          exact ⟨by omega, rfl⟩
      | cons x ds =>
          obtain ⟨hpos, hdigits⟩ := ih (by simp) hds (by simpa using hlead)
          refine ⟨by omega, ?_⟩
          rw [← Nat.toDigits_append_toDigits (by omega) hpos hv, hdigits,
            Nat.toDigits_of_lt_base hv]

theorem head?_toDigits {k : ℕ} (hk : 0 < k) : (Nat.toDigits 10 k).head? ≠ some '0' := by
  induction k using Nat.strong_induction_on with
  | _ k ih =>
      by_cases hlt : k < 10
      · rw [Nat.toDigits_of_lt_base hlt, List.head?_cons]
        intro h
        have := Nat.digitChar_eq_zero.1 (Option.some.inj h)
        omega
      · have hhead := ih (k / 10) (by omega) (by omega)
        rw [Nat.toDigits_of_base_le (by omega) (by omega)]
        cases hx : Nat.toDigits 10 (k / 10) with
        | nil => exact absurd hx Nat.toDigits_ne_nil
        | cons x xs =>
            rw [hx] at hhead
            exact hhead

end digits

/-! ### Counts -/

namespace Repeat

/-- The count that is written for it. -/
def count : Repeat → Count
  | once => .absent
  | byCell => .byCell
  | times n => .fixed (n.toInt < 0) (Nat.toDigits 10 n.toInt.natAbs)

theorem chars_count (r : Repeat) : r.count.chars = r.chars := by
  cases r with
  | once | byCell => rfl
  | times n =>
      simp only [count, Count.chars, Count.numeral, chars, integerChars, decide_eq_true_eq]
      split <;> rfl

theorem valid_count (r : Repeat) : r.count.Valid := by
  cases r with
  | once | byCell => trivial
  | times n =>
      refine ⟨Nat.toDigits_ne_nil, fun d hd => ?_⟩
      exact Nat.isDigit_of_mem_toDigits (by omega) le_rfl hd

theorem value_toDigits (n : ℤ) : Count.value (n < 0) (Nat.toDigits 10 n.natAbs) = n := by
  unfold Count.value
  rw [Nat.ofDigitChars_ten_toDigits]
  by_cases hn : n < 0
  · simp only [hn, decide_true, if_true, Int.ofNat_eq_natCast]
    omega
  · simp only [hn, decide_false, Bool.false_eq_true, if_false]
    omega

theorem fits_count (r : Repeat) : r.count.Fits := by
  cases r with
  | once | byCell => trivial
  | times n =>
      have hlow := n.le_toInt
      have hhigh := n.toInt_lt
      simp only [count, Count.Fits, value_toDigits]
      omega

theorem times_count (r : Repeat) : r.count.times = r := by
  cases r with
  | once | byCell => rfl
  | times n => rw [count, Count.times, value_toDigits, Int64.ofInt_toInt]

end Repeat

/-! ### Canonical numerals -/

/-- A decimal number without a plus sign and without zeros that could be left out, and zero without
a minus sign. -/
structure Canonical (numeral : List Char) : Prop where
  no_plus : '+' ∉ numeral
  no_leading_zero : ∀ d ds, numeral ≠ '0' :: d :: ds ∧ numeral ≠ '-' :: '0' :: d :: ds
  no_minus_zero : numeral ≠ ['-', '0']

namespace Repeat
variable {cs : List Char} {n : Int64}

theorem exists_of_readInteger? (h : readInteger? cs = some n) :
    ∃ negative digits, digits ≠ [] ∧ (∀ d ∈ digits, d.isDigit) ∧
      n.toInt = Count.value negative digits ∧
      (cs = Count.numeral negative digits ∨ cs = '+' :: digits) := by
  unfold readInteger? at h
  split at h
  rename_i negative digits hsign
  split at h
  · rename_i hdigits
    have hvalue : (if Int64.minValue.toInt ≤ Count.value negative digits ∧
        Count.value negative digits ≤ Int64.maxValue.toInt then
          some (Int64.ofInt (Count.value negative digits)) else none) = some n := h
    split at hvalue
    · rename_i hfits
      have hmin : Int64.minValue.toInt = -2 ^ 63 := by decide
      have hmax : Int64.maxValue.toInt = 2 ^ 63 - 1 := by decide
      rw [hmin, hmax] at hfits
      refine ⟨negative, digits, hdigits.1, List.all_eq_true.1 hdigits.2, ?_, ?_⟩
      · rw [← Option.some.inj hvalue]
        exact Int64.toInt_ofInt_of_le hfits.1 (by omega)
      · split at hsign <;> cases hsign
        · exact .inl rfl
        · exact .inr rfl
        · exact .inl rfl
    · contradiction
  · contradiction

theorem digit_of_toDigits {k : ℕ} {x : Char} {xs : List Char} (h : Nat.toDigits 10 k = x :: xs) :
    x.isDigit ∧ (x = '0' → k = 0 ∧ xs = []) := by
  refine ⟨Nat.isDigit_of_mem_toDigits (by omega) le_rfl (h ▸ List.mem_cons_self), ?_⟩
  rintro rfl
  obtain rfl : k = 0 := by
    by_contra hk
    exact head?_toDigits (Nat.pos_of_ne_zero hk) (by rw [h]; rfl)
  rw [Nat.toDigits_zero] at h
  exact ⟨rfl, (List.cons.inj h).2.symm⟩

theorem canonical_integerChars (n : Int64) : Canonical (integerChars n) := by
  have hminus : ∀ {k xs}, Nat.toDigits 10 k ≠ '-' :: xs := by
    intro k xs h
    exact absurd (digit_of_toDigits h).1 (by decide)
  unfold integerChars
  dsimp only
  split
  · rename_i hneg
    have hzero : ∀ {xs}, Nat.toDigits 10 n.toInt.natAbs ≠ '0' :: xs := by
      intro xs h
      have := ((digit_of_toDigits h).2 rfl).1
      omega
    refine ⟨?_, ?_, ?_⟩
    · intro hmem
      have hmem := (List.mem_cons.1 hmem).resolve_left (by decide)
      exact absurd (Nat.isDigit_of_mem_toDigits (by omega) le_rfl hmem) (by decide)
    · intro d ds
      exact ⟨by simp, fun h => hzero (List.cons.inj h).2⟩
    · exact fun h => hzero (List.cons.inj h).2
  · refine ⟨?_, ?_, ?_⟩
    · intro hmem
      exact absurd (Nat.isDigit_of_mem_toDigits (by omega) le_rfl hmem) (by decide)
    · intro d ds
      refine ⟨fun h => ?_, hminus⟩
      have hnil := ((digit_of_toDigits h).2 rfl).2
      contradiction
    · exact hminus

theorem integerChars_of_value {negative : Bool} {digits : List Char}
    (hn : n.toInt = Count.value negative digits)
    (hdigits : Nat.toDigits 10 (Nat.ofDigitChars 10 digits 0) = digits)
    (hpos : negative = true → 0 < Nat.ofDigitChars 10 digits 0) :
    integerChars n = Count.numeral negative digits := by
  unfold integerChars Count.numeral
  rw [hn]
  unfold Count.value
  cases negative with
  | true =>
      have hpos := hpos rfl
      simp only [if_true]
      rw [if_pos (by simp only [Int.ofNat_eq_natCast]; omega), Int.natAbs_neg]
      exact congrArg _ hdigits
  | false =>
      simp only [Bool.false_eq_true, if_false]
      rw [if_neg (by omega), Int.natAbs_natCast]
      exact hdigits

/-- **A numeral is that of its value just if it is canonical.** -/
theorem integerChars_eq_iff (h : readInteger? cs = some n) :
    integerChars n = cs ↔ Canonical cs := by
  constructor
  · rintro rfl
    exact canonical_integerChars n
  · intro hc
    obtain ⟨negative, digits, hne, hd, hn, rfl | rfl⟩ := exists_of_readInteger? h
    · by_cases hlead : digits.head? = some '0'
      · obtain ⟨xs, rfl⟩ : ∃ xs, digits = '0' :: xs := List.head?_eq_some_iff.1 hlead
        cases xs with
        | nil =>
            cases negative with
            | true => exact absurd rfl hc.no_minus_zero
            | false => exact integerChars_of_value hn (by decide) (by decide)
        | cons x xs =>
            cases negative with
            | true => exact absurd rfl (hc.no_leading_zero x xs).2
            | false => exact absurd rfl (hc.no_leading_zero x xs).1
      · obtain ⟨hpos, hdigits⟩ := toDigits_ofDigitChars hne hd hlead
        exact integerChars_of_value hn hdigits fun _ => hpos
    · exact absurd List.mem_cons_self hc.no_plus

end Repeat

/-! ### Marks and counts in a text -/

/-- What is read as a count, and how it is written. -/
theorem Repeat.decode_cases {cs rest : List Char} {r : Repeat} (h : decode cs = .ok (r, rest)) :
    (r = .once ∧ cs = rest) ∨ (r = .byCell ∧ cs = '|' :: '|' :: rest) ∨
      ∃ numeral n, r = .times n ∧ cs = '|' :: (numeral ++ '|' :: rest) ∧ numeral ≠ [] ∧
        '|' ∉ numeral ∧ readInteger? numeral = some n := by
  unfold decode at h
  split at h
  · rename_i t
    have ht := List.takeWhile_append_dropWhile (p := (· != '|')) (l := t)
    dsimp only at h
    split at h
    · contradiction
    · rename_i x rest' hdrop
      have hbar : x = '|' := by
        have := List.head?_dropWhile_not (· != '|') t
        rw [hdrop] at this
        simpa using this
      have hnot : '|' ∉ t.takeWhile (· != '|') := by
        intro hmem
        have := List.mem_takeWhile_imp hmem
        simp at this
      rw [hdrop, hbar] at ht
      split at h
      · rename_i hnil
        cases h
        rw [hnil] at ht
        exact .inr (.inl ⟨rfl, by rw [← ht]; rfl⟩)
      · rename_i hne
        split at h
        · rename_i n hn
          cases h
          exact .inr (.inr ⟨_, n, rfl, by rw [ht], hne, hnot, hn⟩)
        · contradiction
  · cases h
    exact .inl ⟨rfl, rfl⟩

theorem Scope.eq_append_of_decode {cs rest : List Char} {s : Scope}
    (h : decode cs = (s, rest)) : cs = s.chars ++ rest := by
  unfold decode at h
  split at h <;> cases h <;> rfl

theorem Scope.append_bar_inj {s s' : Scope} {t t' : List Char}
    (h : s.chars ++ '|' :: t = s'.chars ++ '|' :: t') : t = t' := by
  cases s <;> cases s' <;> simp_all [Scope.chars]

theorem eq_of_append_bar {l l' r r' : List Char} (hl : '|' ∉ l) (hl' : '|' ∉ l')
    (h : l ++ '|' :: r = l' ++ '|' :: r') : l = l' := by
  have htake : ∀ {l r : List Char}, '|' ∉ l → (l ++ '|' :: r).takeWhile (· != '|') = l := by
    intro l r hl
    rw [List.takeWhile_append_of_pos]
    · simp
    · intro x hx
      apply bne_iff_ne.2
      rintro rfl
      exact hl hx
  rw [← htake hl, h, htake hl']

/-! ### Instructions -/

namespace Instruction
variable {i : Instruction} {cs : List Char}

/-- The lexeme that is written for an instruction. -/
def lexeme (i : Instruction) : Lexeme := .command i.scope i.times.count i.command

theorem chars_lexeme (i : Instruction) : i.lexeme.chars = i.chars := by
  rw [lexeme, Lexeme.chars, Repeat.chars_count, chars, List.append_assoc]

theorem valid_lexeme (i : Instruction) : i.lexeme.Valid := by
  refine ⟨?_, ?_, i.times.valid_count⟩
  · cases i with
    | act s r a => exact fun _ => rfl
    | perform s o => exact fun _ => rfl
    | swap => exact fun h => absurd h (by decide)
  · cases i with
    | act s r a => exact fun _ => rfl
    | perform s o => exact fun h => absurd rfl h
    | swap => exact fun h => absurd rfl h

/-- An instruction is read from its written form. -/
theorem decode_chars_self (i : Instruction) : decode i.chars = .ok i := by
  rw [← chars_lexeme, lexeme, Lexeme.decode_of_fits i.times.valid_count i.times.fits_count,
    Repeat.times_count, assemble_self]

theorem parts_of_assemble {s : Scope} {r : Repeat} {c : Command}
    (h : assemble s r c = .ok i) : i.scope = s ∧ i.times = r ∧ i.command = c := by
  cases c with
  | act a =>
      cases h
      exact ⟨rfl, rfl, rfl⟩
  | perform o =>
      rw [assemble] at h
      split at h
      · rename_i hr
        cases h
        exact ⟨rfl, hr.symm, rfl⟩
      · contradiction
  | swap =>
      rw [assemble] at h
      split at h
      · contradiction
      · rename_i hr
        split at h
        · contradiction
        · rename_i hs
          cases h
          cases s with
          | global => exact ⟨rfl, (not_not.1 hr).symm, rfl⟩
          | «local» => exact absurd rfl hs

/-- If the text writes a count out between bars, the numeral is canonical. -/
def CanonicallyCounted (cs : List Char) : Prop :=
  ∀ (s : Scope) (numeral rest : List Char), cs = s.chars ++ ('|' :: (numeral ++ '|' :: rest)) →
    '|' ∉ numeral → numeral ≠ [] → Canonical numeral

/-- The parts of a text that is read as an instruction. -/
theorem exists_of_decode (h : decode cs = .ok i) : ∃ rest, cs = i.scope.chars ++ rest ∧
    Repeat.decode rest = .ok (i.times, i.command.lexeme) := by
  unfold decode at h
  rcases hs : Scope.decode cs with ⟨s, rest⟩
  rw [hs] at h
  refine ⟨rest, ?_⟩
  cases hr : Repeat.decode rest with
  | error fault => simp [hr, bind, Except.bind] at h
  | ok result =>
      obtain ⟨r, word⟩ := result
      simp only [hr, bind, Except.bind] at h
      cases hc : Command.ofLexeme? word with
      | none => simp [hc] at h
      | some c =>
          simp only [hc] at h
          obtain ⟨rfl, rfl, rfl⟩ := parts_of_assemble h
          rw [Command.ofLexeme?_eq_some_iff.1 hc]
          exact ⟨Scope.eq_append_of_decode hs, rfl⟩

theorem append_lexeme_ne (s s' : Scope) (c : Command) (t : List Char) :
    s.chars ++ c.lexeme ≠ s'.chars ++ '|' :: t := by
  obtain ⟨x, cs, hc, hmark, hbar, _⟩ := c.lexeme_eq_cons
  rw [hc]
  cases s <;> cases s' <;> simp [Scope.chars, hmark, hbar]

/-- **A written form is that of its instruction just if its count is canonical.** -/
theorem chars_eq_iff (h : decode cs = .ok i) : i.chars = cs ↔ CanonicallyCounted cs := by
  obtain ⟨rest, rfl, hr⟩ := exists_of_decode h
  have hchars : i.chars = i.scope.chars ++ (i.times.chars ++ i.command.lexeme) := by
    rw [chars, List.append_assoc]
  rw [hchars, List.append_cancel_left_eq]
  rcases Repeat.decode_cases hr with ⟨htimes, rfl⟩ | ⟨htimes, rfl⟩ |
    ⟨numeral, n, htimes, rfl, hne, hbar, hn⟩
  · rw [htimes]
    refine ⟨fun _ s numeral rest hcs => ?_, fun _ => rfl⟩
    exact absurd hcs (append_lexeme_ne _ s _ _)
  · rw [htimes]
    refine ⟨fun _ s numeral rest hcs hbar hne => ?_, fun _ => rfl⟩
    have hempty : [] = numeral := eq_of_append_bar List.not_mem_nil hbar (Scope.append_bar_inj hcs)
    exact absurd hempty.symm hne
  · have hsame : i.times.chars ++ i.command.lexeme = '|' :: (numeral ++ '|' :: i.command.lexeme) ↔
        Repeat.integerChars n = numeral := by
      simp [htimes, Repeat.chars]
    rw [hsame, Repeat.integerChars_eq_iff hn]
    constructor
    · intro hc s numeral' rest hcs hbar' _
      rwa [← eq_of_append_bar hbar hbar' (Scope.append_bar_inj hcs)]
    · intro hc
      exact hc i.scope numeral i.command.lexeme rfl hbar hne

end Instruction

/-! ### Programs -/

/-- The lexemes of a program text: the instructions with a blank between them, and a terminator. -/
def row : List Instruction → List Lexeme
  | [] => [.terminator false false]
  | [i] => [i.lexeme, .terminator false false]
  | i :: j :: is => i.lexeme :: .blank [' '] :: row (j :: is)

theorem spell_row (is : List Instruction) :
    spell (row is) = [' '].intercalate (is.map Instruction.chars) ++ [':'] := by
  fun_induction row is with
  | case1 => rfl
  | case2 i =>
      rw [spell_cons, i.chars_lexeme]
      simp [Lexeme.chars]
  | case3 i j is ih =>
      rw [spell_cons, spell_cons, ih, i.chars_lexeme]
      simp [Lexeme.chars]

theorem endsTerminated_row (is : List Instruction) : EndsTerminated (row is) := by
  unfold EndsTerminated
  fun_induction row is with
  | case1 => rfl
  | case2 i => rfl
  | case3 i j is ih =>
      rw [List.getLast?_cons, List.getLast?_cons]
      cases hrow : (row (j :: is)).getLast? with
      | none =>
          rw [hrow] at ih
          contradiction
      | some l =>
          rw [hrow] at ih
          exact ih

theorem head?_chars (i : Instruction) (t : List Char) :
    ∀ x, (i.lexeme.chars ++ t).head? = some x → x ∉ [' ', '\t', '\x0b', '\x0c'] := by
  intro x hx
  have hvalid := i.valid_lexeme
  cases hc : i.lexeme.chars with
  | nil => exact absurd hc (Lexeme.chars_ne_nil hvalid)
  | cons y u =>
      rw [hc] at hx
      obtain rfl : y = x := Option.some.inj hx
      rcases Lexeme.cases_of_chars_eq_cons hvalid hc with ⟨_, _, _, _, hy, _⟩ | ⟨_, _, _, hl⟩ |
        ⟨_, _, hl⟩ | ⟨_, _, hl⟩
      · intro hmem
        exact hy (by simp_all)
      · contradiction
      · contradiction
      · contradiction

/-- The rules take the lexemes of a program text one by one. -/
theorem reads_row (is : List Instruction) : Reads (spell (row is)) (row is) [] := by
  have hend : Reads (spell [.terminator false false]) [.terminator false false] [] :=
    Reads.take_closed trivial (by simp [Lexeme.Closed]) (.stop rfl)
  fun_induction row is with
  | case1 => exact hend
  | case2 i => exact hend.take_closed i.valid_lexeme fun _ => by simp [Lexeme.chars]
  | case3 i j is ih =>
      have hblank : Lexeme.Valid (.blank [' ']) := ⟨by simp, by simp⟩
      have hclosed : Lexeme.Closed (.blank [' ']) (spell (row (j :: is))) := by
        cases is <;> exact head?_chars j _
      exact (ih.take_closed hblank hclosed).take_closed i.valid_lexeme fun _ => by
        simp [Lexeme.chars]

theorem decodeTokens_row (source : String) (pos : Position) (is : List Instruction) :
    ∃ code, Program.decodeTokens source (tokensAt pos (row is)) = .ok code ∧
      code.map (·.instruction) = is := by
  have hfirst : ∀ (i : Instruction) (pos : Position) {ls : List Lexeme} {code : List Placed},
      Program.decodeTokens source (tokensAt (pos.advance i.lexeme.chars) ls) = .ok code →
      Program.decodeTokens source (tokensAt pos (i.lexeme :: ls)) = .ok (⟨i, pos⟩ :: code) := by
    intro i pos ls code h
    have hdecode : Instruction.decode i.lexeme.chars = .ok i := by
      rw [i.chars_lexeme, i.decode_chars_self]
    have hkind : i.lexeme.kind = .command := rfl
    simp [tokensAt, Program.decodeTokens, hkind, hdecode, h, Except.map]
  fun_induction row is generalizing pos with
  | case1 => exact ⟨[], rfl, rfl⟩
  | case2 i => exact ⟨[⟨i, pos⟩], hfirst i pos rfl, rfl⟩
  | case3 i j is ih =>
      obtain ⟨code, hcode, his⟩ := ih ((pos.advance i.lexeme.chars).advance [' '])
      exact ⟨⟨i, pos⟩ :: code, hfirst i pos hcode, by rw [List.map_cons, his]⟩

namespace Program

/-- The text of a program and a colon is a program with the same instructions. -/
theorem compile_text (source : String) (p : Program) :
    ∃ p', compile source (p.text ++ ":") = .ok p' ∧ p'.instructions = p.instructions := by
  have htext : (p.text ++ ":").toList = spell (row p.instructions) := by
    rw [spell_row, String.toList_append, text, String.toList_intercalate, List.map_map]
    have hchars : String.toList ∘ Instruction.text = Instruction.chars := by
      funext i
      exact String.toList_ofList
    rw [hchars]
    rfl
  obtain ⟨code, hcode, his⟩ := decodeTokens_row source .start p.instructions
  have hreads : Reads (p.text ++ ":").toList (row p.instructions) [] := by
    rw [htext]
    exact reads_row p.instructions
  refine ⟨ofCode source code, ?_, his⟩
  rw [(compile_of_not_stuck hreads (not_stuck_of_isTail (.inl rfl))).2 (endsTerminated_row _),
    hcode]
  rfl

/-- **What is printed can be read again.**  The text of a program and a colon is a program with the
same instructions and the same jumps, and its text is the same.  An instruction is read from its
written form.  Of all the texts that are read as an instruction, those with a canonical count or
none are printed for it. -/
theorem text_round_trips :
    (∀ source text p, compile source text = .ok p → ∃ p', compile source (p.text ++ ":") = .ok p' ∧
      p'.instructions = p.instructions ∧ p'.jumps = p.jumps ∧ p'.text = p.text) ∧
    (∀ i : Instruction, Instruction.decode i.text.toList = .ok i) ∧
    ∀ (s : String) (i : Instruction), Instruction.decode s.toList = .ok i →
      (i.text = s ↔ Instruction.CanonicallyCounted s.toList) := by
  refine ⟨fun source _ p _ => ?_, fun i => ?_, fun s i h => ?_⟩
  · obtain ⟨p', hp', his⟩ := compile_text source p
    refine ⟨p', hp', his, ?_, by rw [text, text, his]⟩
    rw [p'.jumps_eq, p.jumps_eq]
    exact congrArg _ his
  · rw [Instruction.text, String.toList_ofList]
    exact i.decode_chars_self
  · rw [← Instruction.chars_eq_iff h, Instruction.text, ← String.toList_inj, String.toList_ofList]

/-- The least count there is, and two brackets that would be others without the blank between
them. -/
def leastCount : Program :=
  .ofCode "demo" [⟨.act .local (.times Int64.minValue) .increment, ⟨1, 1⟩⟩,
    ⟨.perform .global (.opening .testFirst), ⟨1, 2⟩⟩,
    ⟨.perform .global (.closing .testLast), ⟨1, 3⟩⟩]

/-- The program is read from its text and from the text of what was read; a count with a zero too
many is read and not printed. -/
theorem text_round_trips_leastCount :
    (∃ p p', compile "demo" (leastCount.text ++ ":") = .ok p ∧
      p.instructions = leastCount.instructions ∧ compile "demo" (p.text ++ ":") = .ok p' ∧
      p'.instructions = p.instructions ∧ p'.jumps = p.jumps ∧ p'.text = p.text) ∧
    Instruction.decode "|-07|!".toList = .ok (.act .global (.times (-7)) .increment) ∧
    ((Instruction.act .global (.times (-7)) .increment).text = "|-07|!" ↔
      Instruction.CanonicallyCounted "|-07|!".toList) := by
  obtain ⟨hprograms, _, hwritten⟩ := text_round_trips
  obtain ⟨p, hp, his⟩ := compile_text "demo" leastCount
  obtain ⟨p', hp', hsame⟩ := hprograms "demo" _ p hp
  have hdecode : Instruction.decode "|-07|!".toList =
      .ok (.act .global (.times (-7)) .increment) := by decide +kernel
  exact ⟨⟨p, p', hp, his, hp', hsame⟩, hdecode, hwritten _ _ hdecode⟩

end Program

end TwinTape
