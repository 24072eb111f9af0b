import TwinTape.Proofs.Numerals
import TwinTape.Proofs.ShortestDigits

/-! # What styles write

`Quantity.RoundsTo q b` says that `b` is the number nearest to what is written.

* Listed and printed decimals are numerals that differ in the exponent (`Numeral.exists_listed`).
* A text that writes a quantity is read as the number nearest to it (`Writes.binary?_eq`).
* A number is listed as a quantity that rounds to it, and printed as what is listed with a sign in
  the exponent (`Style.exists_writes_listed`).  So both are read back. -/

namespace TwinTape

theorem isDigits_toDigits (k : ℕ) : IsDigits (Nat.toDigits 10 k) :=
  ⟨Nat.toDigits_ne_nil, fun _ hd => Nat.isDigit_of_mem_toDigits (by omega) (by omega) hd⟩

theorem IsDigits.append_zeros {ds : List Char} (h : IsDigits ds) (k : ℕ) :
    IsDigits (ds ++ List.replicate k '0') := by
  refine ⟨by simp [h.1], ?_⟩
  intro d hd
  rcases List.mem_append.1 hd with hd | hd
  · exact h.2 d hd
  · rw [List.eq_of_mem_replicate hd]
    rfl

theorem IsDigits.take {ds : List Char} (h : IsDigits ds) {k : ℕ} (hk : 0 < k) :
    IsDigits (ds.take k) := by
  refine ⟨?_, fun d hd => h.2 d (List.mem_of_mem_take hd)⟩
  have hlength := List.length_pos_iff.2 h.1
  rw [← List.length_pos_iff, List.length_take]
  omega

theorem IsDigits.drop {ds : List Char} (h : IsDigits ds) {k : ℕ} (hk : k < ds.length) :
    IsDigits (ds.drop k) := by
  refine ⟨?_, fun d hd => h.2 d (List.mem_of_mem_drop hd)⟩
  rw [← List.length_pos_iff, List.length_drop]
  omega

theorem isDigits_zero : IsDigits ['0'] := ⟨by simp, by simp⟩

namespace Numeral

theorem valid_of_point {negative : Bool} {whole fraction : List Char} (hw : IsDigits whole)
    (hf : IsDigits fraction) : Valid ⟨negative, whole, some fraction, none⟩ where
  whole := hw
  fraction := by
    intro ds hds
    obtain rfl : fraction = ds := Option.some.inj hds
    exact hf
  exponent := by simp

theorem magnitude_of_point (negative : Bool) (whole fraction : List Char) :
    magnitude ⟨negative, whole, some fraction, none⟩ =
      Nat.ofDigitChars 10 (whole ++ fraction) 0 * 10 ^ (-(fraction.length : ℤ)) := by
  simp [magnitude, digits, scale, power]

theorem exists_positional (negative : Bool) (d : Decimal) : ∃ n : Numeral, n.Valid ∧
    n.negative = negative ∧ n.chars = signChars negative ++ Style.positional d ∧
    n.magnitude = d.digits * 10 ^ d.exponent ∧ n.exponent = none := by
  have hdigits := isDigits_toDigits d.digits
  have hvalue : Nat.ofDigitChars 10 (Nat.toDigits 10 d.digits) 0 = d.digits :=
    Nat.ofDigitChars_ten_toDigits
  have hlength : 0 < (Nat.toDigits 10 d.digits).length := Nat.length_toDigits_pos
  unfold Style.positional
  generalize Nat.toDigits 10 d.digits = ds at hdigits hvalue hlength
  dsimp only
  by_cases hexponent : 0 ≤ d.exponent
  · obtain ⟨k, hk⟩ := Int.eq_ofNat_of_zero_le hexponent
    rw [if_pos hexponent, hk]
    refine ⟨⟨negative, ds ++ List.replicate k '0', some ['0'], none⟩,
      valid_of_point (hdigits.append_zeros k) isDigits_zero, rfl, ?_, ?_, rfl⟩
    · simp [chars, mantissaChars, fractionChars, exponentChars]
    · rw [magnitude_of_point, List.append_assoc, Nat.ofDigitChars_append, hvalue,
        Nat.ofDigitChars_append, Nat.ofDigitChars_replicate_zero, Nat.ofDigitChars_cons,
        Nat.ofDigitChars_nil]
      simp
      ring
  · rw [if_neg hexponent]
    by_cases hpoint : 0 < (ds.length : ℤ) + d.exponent
    · rw [if_pos hpoint]
      obtain ⟨k, hk⟩ := Int.eq_ofNat_of_zero_le hpoint.le
      rw [hk]
      refine ⟨⟨negative, ds.take k, some (ds.drop k), none⟩,
        valid_of_point (hdigits.take (by omega)) (hdigits.drop (by omega)), rfl, ?_, ?_, rfl⟩
      · simp [chars, mantissaChars, fractionChars, exponentChars]
      · rw [magnitude_of_point, List.take_append_drop, hvalue, List.length_drop]
        congr 2
        omega
    · rw [if_neg hpoint]
      obtain ⟨k, hk⟩ := Int.eq_ofNat_of_zero_le (show 0 ≤ -((ds.length : ℤ) + d.exponent) by omega)
      rw [hk]
      refine ⟨⟨negative, ['0'], some (List.replicate k '0' ++ ds), none⟩,
        valid_of_point isDigits_zero (hdigits.zeros_append k), rfl, ?_, ?_, rfl⟩
      · simp [chars, mantissaChars, fractionChars, exponentChars]
      · have hlead : Nat.ofDigitChars 10 (['0'] ++ (List.replicate k '0' ++ ds)) 0 = d.digits := by
          rw [← hvalue, ← ofDigitChars_zeros (k + 1) ds]
          rfl
        rw [magnitude_of_point, hlead, List.length_append, List.length_replicate]
        congr 2
        omega

/-! ### Numerals with an exponent -/

/-- One digit before the point, the others after it, and an exponent. -/
def scientific (negative : Bool) (ds : List Char) (k : ℤ) : Numeral where
  negative := negative
  whole := ds.take 1
  fraction := if ds.length ≤ 1 then none else some (ds.drop 1)
  exponent := some (if k < 0 then ['-'] else [], Nat.toDigits 10 k.natAbs)

section scientific
variable {negative : Bool} {ds : List Char} {k : ℤ}

theorem valid_scientific (h : IsDigits ds) : (scientific negative ds k).Valid where
  whole := h.take Nat.one_pos
  fraction := by
    intro fs hfs
    dsimp only [scientific] at hfs
    split at hfs
    · contradiction
    · obtain rfl : ds.drop 1 = fs := Option.some.inj hfs
      exact h.drop (by omega)
  exponent := by
    intro e he
    obtain rfl : _ = e := Option.some.inj he
    refine ⟨?_, isDigits_toDigits _⟩
    dsimp only
    split
    · exact .inr (.inl rfl)
    · exact .inl rfl

theorem isPlain_scientific : (scientific negative ds k).IsPlain := by
  intro e he
  obtain rfl : _ = e := Option.some.inj he
  dsimp only
  split
  · exact .inr rfl
  · exact .inl rfl

theorem power_scientific : (scientific negative ds k).power = k := by
  have hvalue : Nat.ofDigitChars 10 (Nat.toDigits 10 k.natAbs) 0 = k.natAbs :=
    Nat.ofDigitChars_ten_toDigits
  dsimp only [power, scientific]
  rw [hvalue]
  by_cases hk : k < 0
  · rw [if_pos hk, if_pos rfl]
    omega
  · rw [if_neg hk, if_neg (by decide)]
    omega

theorem getD_fraction_scientific : (scientific negative ds k).fraction.getD [] = ds.drop 1 := by
  dsimp only [scientific]
  split
  · rw [List.drop_of_length_le ‹_›]
    rfl
  · rfl

theorem magnitude_scientific (h : IsDigits ds) :
    (scientific negative ds k).magnitude =
      Nat.ofDigitChars 10 ds 0 * 10 ^ (k + 1 - (ds.length : ℤ)) := by
  have hlength := List.length_pos_iff.2 h.1
  unfold magnitude digits scale
  rw [power_scientific, getD_fraction_scientific]
  show ((Nat.ofDigitChars 10 (ds.take 1 ++ ds.drop 1) 0 : ℕ) : ℚ) * _ = _
  rw [List.take_append_drop, List.length_drop]
  congr 2
  omega

theorem mantissaChars_scientific : (scientific negative ds k).mantissaChars =
    if ds.length ≤ 1 then ds else ds.take 1 ++ '.' :: ds.drop 1 := by
  dsimp only [mantissaChars, fractionChars, scientific]
  by_cases hlength : ds.length ≤ 1
  · simp [hlength, List.take_of_length_le]
  · simp [hlength]

theorem exponentChars_scientific :
    (scientific negative ds k).exponentChars = 'e' :: Style.listed.exponentChars k := by
  have hlength : 0 < (Nat.toDigits 10 k.natAbs).length := Nat.length_toDigits_pos
  have hpad : 1 - (Nat.toDigits 10 k.natAbs).length = 0 := by omega
  simp [exponentChars, scientific, Style.exponentChars, Style.listed, hpad]

theorem exponentChars_signed_scientific :
    (scientific negative ds k).signed.exponentChars = 'e' :: Style.printed.exponentChars k := by
  by_cases hk : k < 0 <;>
    simp [exponentChars, signed, scientific, Style.exponentChars, Style.printed, hk]

end scientific

/-- A decimal is listed as a numeral, and printed with a sign in the exponent. -/
theorem exists_listed (negative : Bool) (d : Decimal) : ∃ n : Numeral, n.Valid ∧ n.IsPlain ∧
    n.negative = negative ∧ n.magnitude = d.digits * 10 ^ d.exponent ∧
    n.chars = signChars negative ++ Style.listed.decimal d ∧
    n.signed.chars = signChars negative ++ Style.printed.decimal d := by
  unfold Style.decimal
  split
  · obtain ⟨n, hvalid, hnegative, hchars, hmagnitude, hnone⟩ := exists_positional negative d
    have hsame : n.signed = n := by
      cases n
      subst hnone
      rfl
    have hplain : n.IsPlain := by simp [IsPlain, hnone]
    exact ⟨n, hvalid, hplain, hnegative, hmagnitude, hchars, by rw [hsame, hchars]⟩
  · have hdigits := isDigits_toDigits d.digits
    refine ⟨scientific negative _ ((Nat.toDigits 10 d.digits).length + d.exponent - 1),
      valid_scientific hdigits, isPlain_scientific, rfl, ?_, ?_, ?_⟩
    · rw [magnitude_scientific hdigits, Nat.ofDigitChars_ten_toDigits]
      congr 2
      omega
    · rw [chars, mantissaChars_scientific, exponentChars_scientific]
      rfl
    · rw [chars, mantissaChars_signed, mantissaChars_scientific, exponentChars_signed_scientific]
      rfl

end Numeral

/-! ### Numbers that are written and read -/

/-- The parts of a number, which may be infinite. -/
def Binary.IsNumber : Binary → Prop
  | .nan => False
  | .infinite _ => True
  | .finite _ m s => m = 0 ∧ s = 0 ∨ Positive m s

/-- The number is nearest to the quantity. -/
inductive Quantity.RoundsTo : Quantity → Binary → Prop
  | infinite (negative : Bool) : RoundsTo (.infinite negative) (.infinite negative)
  | zero (negative : Bool) : RoundsTo (.decimal negative 0) (.finite negative 0 0)
  | positive (negative : Bool) {m s : ℕ} {magnitude : ℚ} :
      Binary.Positive m s → Binary.RoundsTo m s (magnitude * Binary.unitsPerOne) →
      RoundsTo (.decimal negative magnitude) (.finite negative m s)

/-- **What is written is read as the number nearest to it.** -/
theorem Writes.binary?_eq {form : Numeral → Prop} {cs : List Char} {q : Quantity} {b : Binary}
    (h : Writes form cs q) (hq : q.RoundsTo b) : Reader.binary? cs = some b := by
  cases h with
  | infinite negative =>
      cases hq
      cases negative <;> rfl
  | @numeral n hvalid _ =>
      rw [hvalid.binary?_chars]
      generalize hmagnitude : n.magnitude = magnitude at hq
      cases hq with
      | zero =>
          have hpow : (10 : ℚ) ^ n.scale ≠ 0 := zpow_ne_zero _ (by norm_num)
          have hdigits : n.digits = 0 := by
            exact_mod_cast (mul_eq_zero.1 hmagnitude).resolve_right hpow
          rw [hdigits]
          rfl
      | positive _ hpos hround =>
          rw [← hmagnitude] at hround
          rw [Reader.ofDecimal_eq n.negative hpos hround]

namespace Style

theorem binary_zero (style : Style) (negative : Bool) (s : ℕ) :
    style.binary (.finite negative 0 s) = Numeral.signChars negative ++ ['0', '.', '0'] := rfl

theorem binary_positive (style : Style) (negative : Bool) {m : ℕ} (hm : 0 < m) (s : ℕ) :
    style.binary (.finite negative m s) =
      Numeral.signChars negative ++ style.decimal (.shortest m s) := by
  rw [binary, if_neg hm.ne', Numeral.signChars]

/-- A number is listed as a quantity that rounds to it, and printed as what is listed with a sign
in the exponent. -/
theorem exists_writes_listed {b : Binary} (h : b.IsNumber) :
    ∃ q : Quantity, Writes Numeral.IsPlain (listed.binary b) q ∧ q.RoundsTo b ∧
      printed.binary b = signExponent (listed.binary b) := by
  cases b with
  | nan => exact h.elim
  | infinite negative =>
      refine ⟨.infinite negative, .infinite negative, .infinite negative, ?_⟩
      cases negative <;> rfl
  | finite negative m s =>
      rcases h with ⟨rfl, rfl⟩ | hpos
      · let n : Numeral := ⟨negative, ['0'], some ['0'], none⟩
        have hvalid : n.Valid := Numeral.valid_of_point isDigits_zero isDigits_zero
        have hplain : n.IsPlain := by simp [Numeral.IsPlain, n]
        have hmagnitude : n.magnitude = 0 := by
          rw [Numeral.magnitude_of_point]
          simp [Nat.ofDigitChars_cons]
        have hwrites := Writes.numeral hvalid hplain
        rw [hmagnitude] at hwrites
        refine ⟨_, hwrites, .zero negative, ?_⟩
        rw [binary_zero, binary_zero, signExponent_of_not_mem (by cases negative <;> decide)]
      · obtain ⟨n, hvalid, hplain, rfl, hmagnitude, hlisted, hprinted⟩ :=
          Numeral.exists_listed negative (Decimal.shortest m s)
        have hround := Decimal.roundsTo_shortest hpos
        have hwrites := Writes.numeral hvalid hplain
        rw [← hmagnitude] at hround
        rw [binary_positive _ _ hpos.pos, binary_positive _ _ hpos.pos, ← hlisted, ← hprinted]
        exact ⟨_, hwrites, .positive _ hpos hround, (hvalid.signExponent_chars hplain).symm⟩

end Style
end TwinTape
