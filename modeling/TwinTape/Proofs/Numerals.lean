import TwinTape.Number.Reader
import TwinTape.Number.Style
import Mathlib.Algebra.Order.Field.Power
import Mathlib.Data.List.TakeWhile
import Mathlib.Data.Rat.Cast.Order
import Mathlib.Tactic.Ring

/-! # Numbers as they are written

A number is written as an infinity or as a numeral: a sign, digits, perhaps a fraction, perhaps an
exponent.  `Writes form text q` says that a text is the number `q` written in this way, where
`form` says what the exponent may look like.  A text writes one number at most (`Writes.unique`).

* A numeral is read, and what it is read as depends on its digits and on the place of the point
  alone (`Numeral.Valid.binary?_chars`).
* Listings write exponents without plus signs (`Numeral.IsPlain`).  Programs print them with a sign
  and at least two digits (`Numeral.IsSigned`), which is what `signExponent` makes of a listed
  number; it changes neither what is written nor what is read (`Writes.signExponent_iff`,
  `Writes.binary?_signExponent`). -/

namespace TwinTape

/-- A decimal as it is written. -/
structure Numeral where
  negative : Bool
  whole : List Char
  /-- What follows the point. -/
  fraction : Option (List Char)
  /-- The sign of the exponent and its digits. -/
  exponent : Option (List Char × List Char)

/-- What a text writes. -/
inductive Quantity where
  | infinite (negative : Bool)
  | decimal (negative : Bool) (magnitude : ℚ)

/-- Some decimal digits. -/
def IsDigits (ds : List Char) : Prop := ds ≠ [] ∧ ∀ d ∈ ds, d.isDigit = true

namespace Numeral

/-- The parts are what they should be. -/
structure Valid (n : Numeral) : Prop where
  whole : IsDigits n.whole
  fraction : ∀ ds ∈ n.fraction, IsDigits ds
  exponent : ∀ e ∈ n.exponent, (e.1 = [] ∨ e.1 = ['-'] ∨ e.1 = ['+']) ∧ IsDigits e.2

/-- An exponent has a minus sign or none. -/
def IsPlain (n : Numeral) : Prop := ∀ e ∈ n.exponent, e.1 = [] ∨ e.1 = ['-']

/-- An exponent has a sign and at least two digits. -/
def IsSigned (n : Numeral) : Prop :=
  ∀ e ∈ n.exponent, (e.1 = ['+'] ∨ e.1 = ['-']) ∧ 2 ≤ e.2.length

/-- The minus sign of a negative number. -/
def signChars (negative : Bool) : List Char := if negative then ['-'] else []

/-- The point and the fraction. -/
def fractionChars (n : Numeral) : List Char :=
  match n.fraction with
  | none => []
  | some ds => '.' :: ds

/-- The digits and the fraction. -/
def mantissaChars (n : Numeral) : List Char := n.whole ++ n.fractionChars

/-- The exponent with its letter. -/
def exponentChars (n : Numeral) : List Char :=
  match n.exponent with
  | none => []
  | some (sign, ds) => 'e' :: (sign ++ ds)

/-- The written form. -/
def chars (n : Numeral) : List Char :=
  signChars n.negative ++ (n.mantissaChars ++ n.exponentChars)

/-- The exponent, zero if none is written. -/
def power (n : Numeral) : ℤ :=
  match n.exponent with
  | none => 0
  | some (sign, ds) =>
    if sign = ['-'] then -(Nat.ofDigitChars 10 ds 0 : ℤ) else Nat.ofDigitChars 10 ds 0

/-- The digits before and after the point as one number. -/
def digits (n : Numeral) : ℕ := Nat.ofDigitChars 10 (n.whole ++ n.fraction.getD []) 0

/-- The power of ten of the last digit. -/
def scale (n : Numeral) : ℤ := n.power - (n.fraction.getD []).length

/-- The absolute value that is written. -/
def magnitude (n : Numeral) : ℚ := n.digits * 10 ^ n.scale

end Numeral

/-- The text writes the number, with an exponent of the given form. -/
inductive Writes (form : Numeral → Prop) : List Char → Quantity → Prop
  | infinite (negative : Bool) :
      Writes form (Numeral.signChars negative ++ ['i', 'n', 'f']) (.infinite negative)
  | numeral {n : Numeral} :
      n.Valid → form n → Writes form n.chars (.decimal n.negative n.magnitude)

/-! ### Reading -/

namespace Reader

theorem spanDigits_append {ds rest : List Char} (hd : ∀ d ∈ ds, d.isDigit = true)
    (hrest : ∀ c, rest.head? = some c → c.isDigit = false) :
    spanDigits (ds ++ rest) = (ds, rest) := by
  have hstop : rest.takeWhile Char.isDigit = [] ∧ rest.dropWhile Char.isDigit = rest := by
    cases rest with
    | nil => exact ⟨rfl, rfl⟩
    | cons c rest => simp [hrest c rfl]
  unfold spanDigits
  rw [List.takeWhile_append_of_pos hd, List.dropWhile_append_of_pos hd, hstop.1, hstop.2,
    List.append_nil]

theorem spanDigits_self {ds : List Char} (hd : ∀ d ∈ ds, d.isDigit = true) :
    spanDigits ds = (ds, []) := by
  simpa using @spanDigits_append ds [] hd (by simp)

theorem spanSign_of_digit {c : Char} (hc : c.isDigit = true) (cs : List Char) :
    spanSign (c :: cs) = (false, c :: cs) := by
  unfold spanSign
  split
  · rename_i heq
    cases heq
    exact absurd hc (by decide)
  · rename_i heq
    cases heq
    exact absurd hc (by decide)
  · rfl

end Reader

namespace Numeral
variable {n : Numeral}

theorem Valid.exponent?_exponentChars (h : n.Valid) :
    Reader.exponent? n.exponentChars = some n.power := by
  unfold exponentChars power
  cases he : n.exponent with
  | none => rfl
  | some e =>
      obtain ⟨sign, ds⟩ := e
      obtain ⟨hsign, hne, hdigits⟩ := h.exponent _ he
      dsimp only at hsign hne hdigits
      have hspan := Reader.spanDigits_self hdigits
      rcases hsign with rfl | rfl | rfl
      · obtain ⟨d, ds, rfl⟩ := List.exists_cons_of_ne_nil hne
        have hd := hdigits d List.mem_cons_self
        simp [Reader.exponent?, Reader.spanSign_of_digit hd, hspan]
      · simp [Reader.exponent?, Reader.spanSign, hspan, hne]
      · simp [Reader.exponent?, Reader.spanSign, hspan, hne]

theorem head?_exponentChars {c : Char} (hc : n.exponentChars.head? = some c) : c = 'e' := by
  unfold exponentChars at hc
  split at hc
  · contradiction
  · exact (Option.some.inj hc).symm

theorem isDigit_head?_exponentChars {c : Char} (hc : n.exponentChars.head? = some c) :
    c.isDigit = false := by
  rw [head?_exponentChars hc]
  decide

theorem Valid.spanFraction_eq (h : n.Valid) :
    Reader.spanFraction (n.fractionChars ++ n.exponentChars) =
      (n.fraction.getD [], n.exponentChars) := by
  unfold fractionChars
  cases hf : n.fraction with
  | none =>
      rw [List.nil_append]
      unfold Reader.spanFraction
      split
      · rename_i heq
        exact absurd (head?_exponentChars (by rw [heq]; rfl)) (by decide)
      · rfl
  | some ds =>
      exact Reader.spanDigits_append (h.fraction ds hf).2 fun _ => isDigit_head?_exponentChars

theorem Valid.spanDigits_eq (h : n.Valid) :
    Reader.spanDigits (n.mantissaChars ++ n.exponentChars) =
      (n.whole, n.fractionChars ++ n.exponentChars) := by
  rw [mantissaChars, List.append_assoc]
  refine Reader.spanDigits_append h.whole.2 ?_
  intro c hc
  unfold fractionChars at hc
  cases hf : n.fraction with
  | none =>
      rw [hf] at hc
      exact isDigit_head?_exponentChars hc
  | some ds =>
      rw [hf] at hc
      obtain rfl : '.' = c := Option.some.inj hc
      decide

theorem Valid.exists_head (h : n.Valid) :
    ∃ d rest, d.isDigit = true ∧ n.mantissaChars ++ n.exponentChars = d :: rest := by
  obtain ⟨hne, hdigits⟩ := h.whole
  obtain ⟨d, ds, hd⟩ := List.exists_cons_of_ne_nil hne
  exact ⟨d, ds ++ (n.fractionChars ++ n.exponentChars), hdigits d (by simp [hd]),
    by simp [mantissaChars, hd]⟩

theorem Valid.spanSign_chars (h : n.Valid) :
    Reader.spanSign n.chars = (n.negative, n.mantissaChars ++ n.exponentChars) := by
  obtain ⟨d, rest, hd, hrest⟩ := h.exists_head
  unfold chars signChars
  rw [hrest]
  cases n.negative with
  | true => rfl
  | false => exact Reader.spanSign_of_digit hd rest

theorem Valid.decimal?_eq (h : n.Valid) (negative : Bool) :
    Reader.decimal? negative (n.mantissaChars ++ n.exponentChars) =
      some (Reader.ofDecimal negative n.digits n.scale) := by
  unfold Reader.decimal? digits scale
  rw [h.spanDigits_eq]
  dsimp only
  rw [h.spanFraction_eq]
  dsimp only
  rw [if_neg (fun hnone => h.whole.1 hnone.1), h.exponent?_exponentChars]
  rfl

theorem toLower_of_isDigit {d : Char} (hd : d.isDigit = true) : d.toLower = d := by
  have hhigh := (Char.isDigit_iff_toNat.1 hd).2
  unfold Char.toLower
  rw [dif_neg]
  rintro ⟨hlow, _⟩
  have hlow : 'A'.toNat ≤ d.toNat := hlow
  exact absurd (hlow.trans hhigh) (by decide)

/-- **A numeral is read.** -/
theorem Valid.binary?_chars (h : n.Valid) :
    Reader.binary? n.chars = some (Reader.ofDecimal n.negative n.digits n.scale) := by
  have hdecimal := h.decimal?_eq n.negative
  obtain ⟨d, rest, hd, hrest⟩ := h.exists_head
  have hlower : d.toLower ≠ 'i' ∧ d.toLower ≠ 'n' := by
    rw [toLower_of_isDigit hd]
    constructor <;> rintro rfl <;> exact absurd hd (by decide)
  unfold Reader.binary?
  rw [h.spanSign_chars]
  dsimp only
  rw [if_neg, if_neg]
  · exact hdecimal
  · rw [hrest]
    simp [Reader.nanWord, hlower.2]
  · rw [hrest]
    simp [Reader.infinityWords, hlower.1]

theorem Valid.magnitude_of_chars_eq {n₁ n₂ : Numeral} (h₁ : n₁.Valid) (h₂ : n₂.Valid)
    (h : n₁.chars = n₂.chars) :
    n₁.negative = n₂.negative ∧ n₁.magnitude = n₂.magnitude := by
  have hsign := h₁.spanSign_chars
  rw [h, h₂.spanSign_chars, Prod.mk.injEq] at hsign
  obtain ⟨hnegative, hrest⟩ := hsign
  have hwhole := h₁.spanDigits_eq
  rw [← hrest, h₂.spanDigits_eq, Prod.mk.injEq] at hwhole
  obtain ⟨hwhole, hrest⟩ := hwhole
  have hfraction := h₁.spanFraction_eq
  rw [← hrest, h₂.spanFraction_eq, Prod.mk.injEq] at hfraction
  obtain ⟨hfraction, hrest⟩ := hfraction
  have hpower := h₁.exponent?_exponentChars
  rw [← hrest, h₂.exponent?_exponentChars, Option.some.injEq] at hpower
  refine ⟨hnegative.symm, ?_⟩
  unfold magnitude digits scale
  rw [hwhole, hfraction, hpower]

end Numeral

/-- A text writes one number at most. -/
theorem Writes.unique {form₁ form₂ : Numeral → Prop} {cs : List Char} {q₁ q₂ : Quantity}
    (h₁ : Writes form₁ cs q₁) (h₂ : Writes form₂ cs q₂) : q₁ = q₂ := by
  have hword (negative : Bool) : Reader.spanSign (Numeral.signChars negative ++ ['i', 'n', 'f']) =
      (negative, ['i', 'n', 'f']) := by cases negative <;> rfl
  have hclash {n : Numeral} {negative : Bool} (hn : n.Valid)
      (h : Numeral.signChars negative ++ ['i', 'n', 'f'] = n.chars) : False := by
    obtain ⟨d, rest, hd, hrest⟩ := hn.exists_head
    have hsign := hword negative
    rw [h, hn.spanSign_chars, hrest, Prod.mk.injEq, List.cons.injEq] at hsign
    rw [hsign.2.1] at hd
    exact absurd hd (by decide)
  generalize hcs : cs = text at h₂
  cases h₁ with
  | infinite negative₁ =>
      cases h₂ with
      | infinite negative₂ =>
          have hsign := hword negative₁
          rw [hcs, hword negative₂, Prod.mk.injEq] at hsign
          rw [hsign.1]
      | numeral hvalid _ => exact (hclash hvalid hcs).elim
  | numeral hvalid₁ _ =>
      cases h₂ with
      | infinite negative₂ => exact (hclash hvalid₁ hcs.symm).elim
      | numeral hvalid₂ _ =>
          obtain ⟨hnegative, hmagnitude⟩ := hvalid₁.magnitude_of_chars_eq hvalid₂ hcs
          rw [hnegative, hmagnitude]

/-! ### Exponents with a sign -/

/-- The text with its exponent, if there is one, written with a sign and at least two digits. -/
def signExponent (cs : List Char) : List Char :=
  match cs.dropWhile (· != 'e') with
  | [] => cs
  | _ :: exponent =>
    let (sign, digits) := match exponent with
      | '-' :: digits => ('-', digits)
      | digits => ('+', digits)
    cs.takeWhile (· != 'e') ++ 'e' :: sign :: (List.replicate (2 - digits.length) '0' ++ digits)

theorem bne_letter {cs : List Char} (h : 'e' ∉ cs) : ∀ c ∈ cs, (c != 'e') = true := by
  intro c hc
  rw [bne_iff_ne]
  rintro rfl
  exact h hc

theorem signExponent_of_not_mem {cs : List Char} (h : 'e' ∉ cs) : signExponent cs = cs := by
  have hnone := List.dropWhile_eq_nil_iff.2 (bne_letter h)
  simp [signExponent, hnone]

theorem signExponent_append {cs : List Char} (h : 'e' ∉ cs) (exponent : List Char) :
    signExponent (cs ++ 'e' :: exponent) =
      let (sign, digits) := match exponent with
        | '-' :: digits => ('-', digits)
        | digits => ('+', digits)
      cs ++ 'e' :: sign :: (List.replicate (2 - digits.length) '0' ++ digits) := by
  have hpass := bne_letter h
  have hdrop : (cs ++ 'e' :: exponent).dropWhile (· != 'e') = 'e' :: exponent := by
    rw [List.dropWhile_append_of_pos hpass]
    rfl
  have htake : (cs ++ 'e' :: exponent).takeWhile (· != 'e') = cs := by
    rw [List.takeWhile_append_of_pos hpass]
    exact List.append_nil cs
  simp only [signExponent, hdrop, htake]

theorem IsDigits.zeros_append {ds : List Char} (h : IsDigits ds) (k : ℕ) :
    IsDigits (List.replicate k '0' ++ ds) := by
  refine ⟨by simp [h.1], ?_⟩
  intro d hd
  rcases List.mem_append.1 hd with hd | hd
  · rw [List.eq_of_mem_replicate hd]
    rfl
  · exact h.2 d hd

namespace Numeral
variable {n : Numeral}

/-- The numeral with a sign and at least two digits in its exponent. -/
def signed (n : Numeral) : Numeral :=
  { n with
    exponent := n.exponent.map fun e =>
      (if e.1 = ['-'] then ['-'] else ['+'], List.replicate (2 - e.2.length) '0' ++ e.2) }

@[simp] theorem negative_signed (n : Numeral) : n.signed.negative = n.negative := rfl

@[simp] theorem mantissaChars_signed (n : Numeral) :
    n.signed.mantissaChars = n.mantissaChars := rfl

theorem ofDigitChars_zeros (k : ℕ) (ds : List Char) :
    Nat.ofDigitChars 10 (List.replicate k '0' ++ ds) 0 = Nat.ofDigitChars 10 ds 0 := by
  rw [Nat.ofDigitChars_append, Nat.ofDigitChars_replicate_zero, Nat.mul_zero]

theorem Valid.signed (h : n.Valid) : n.signed.Valid where
  whole := h.whole
  fraction := h.fraction
  exponent := by
    intro e he
    obtain ⟨e', he', rfl⟩ := Option.map_eq_some_iff.1 he
    refine ⟨?_, (h.exponent e' he').2.zeros_append _⟩
    dsimp only
    split
    · exact .inr (.inl rfl)
    · exact .inr (.inr rfl)

theorem isSigned_signed (n : Numeral) : n.signed.IsSigned := by
  intro e he
  obtain ⟨e', he', rfl⟩ := Option.map_eq_some_iff.1 he
  refine ⟨?_, ?_⟩
  · dsimp only
    split
    · exact .inr rfl
    · exact .inl rfl
  · simp only [List.length_append, List.length_replicate]
    omega

theorem power_signed (n : Numeral) : n.signed.power = n.power := by
  unfold power signed
  cases n.exponent with
  | none => rfl
  | some e =>
      by_cases hsign : e.1 = ['-'] <;> simp [hsign, ofDigitChars_zeros]

theorem digits_signed (n : Numeral) : n.signed.digits = n.digits := rfl

theorem scale_signed (n : Numeral) : n.signed.scale = n.scale := by
  rw [scale, power_signed]
  rfl

theorem magnitude_signed (n : Numeral) : n.signed.magnitude = n.magnitude := by
  rw [magnitude, digits_signed, scale_signed, magnitude]

theorem Valid.letter_not_mem (h : n.Valid) :
    'e' ∉ signChars n.negative ++ n.mantissaChars := by
  have hdigits : ∀ {ds}, IsDigits ds → 'e' ∉ ds := fun hds he => absurd (hds.2 _ he) (by decide)
  have hsign : 'e' ∉ signChars n.negative := by
    unfold signChars
    split <;> decide
  unfold mantissaChars fractionChars
  cases hf : n.fraction with
  | none => simp [hsign, hdigits h.whole]
  | some ds => simp [hsign, hdigits h.whole, hdigits (h.fraction ds hf)]

theorem Valid.signExponent_chars (h : n.Valid) (hplain : n.IsPlain) :
    signExponent n.chars = n.signed.chars := by
  have hletter := h.letter_not_mem
  unfold chars
  rw [negative_signed, mantissaChars_signed, ← List.append_assoc, ← List.append_assoc]
  generalize signChars n.negative ++ n.mantissaChars = cs at hletter
  unfold exponentChars Numeral.signed
  cases he : n.exponent with
  | none => simpa using signExponent_of_not_mem hletter
  | some e =>
      obtain ⟨sign, ds⟩ := e
      have hds := (h.exponent _ he).2
      obtain ⟨d, rest, rfl⟩ := List.exists_cons_of_ne_nil hds.1
      have hd : d ≠ '-' := by
        rintro rfl
        exact absurd (hds.2 _ List.mem_cons_self) (by decide)
      rcases hplain _ he with rfl | rfl
      · rw [signExponent_append hletter]
        simp [hd]
      · rw [signExponent_append hletter]
        simp

end Numeral

/-- **A sign and zeros in the exponent do not change what is written.** -/
theorem Writes.signExponent {cs : List Char} {q : Quantity} (h : Writes Numeral.IsPlain cs q) :
    Writes Numeral.IsSigned (signExponent cs) q := by
  cases h with
  | infinite negative =>
      rw [signExponent_of_not_mem (by cases negative <;> decide)]
      exact .infinite negative
  | @numeral n hvalid hplain =>
      rw [hvalid.signExponent_chars hplain, ← n.magnitude_signed]
      exact .numeral hvalid.signed n.isSigned_signed

/-- So this is all that is written then. -/
theorem Writes.signExponent_iff {cs : List Char} {q r : Quantity}
    (h : Writes Numeral.IsPlain cs q) :
    Writes Numeral.IsSigned (TwinTape.signExponent cs) r ↔ r = q := by
  constructor
  · exact fun hr => hr.unique h.signExponent
  · rintro rfl
    exact h.signExponent

theorem Writes.binary?_signExponent {cs : List Char} {q : Quantity}
    (h : Writes Numeral.IsPlain cs q) :
    ∃ b, Reader.binary? cs = some b ∧ Reader.binary? (TwinTape.signExponent cs) = some b := by
  cases h with
  | infinite negative =>
      rw [signExponent_of_not_mem (by cases negative <;> decide)]
      refine ⟨.infinite negative, ?_, ?_⟩ <;> cases negative <;> rfl
  | @numeral n hvalid hplain =>
      refine ⟨_, hvalid.binary?_chars, ?_⟩
      rw [hvalid.signExponent_chars hplain, hvalid.signed.binary?_chars, n.negative_signed,
        n.digits_signed, n.scale_signed]

end TwinTape
