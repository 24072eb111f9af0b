import TwinTape.Number.Reader
import Mathlib.Algebra.Order.Field.Power
import Mathlib.Data.Rat.Cast.Order
import Mathlib.Tactic.FieldSimp
import Mathlib.Tactic.Linarith
import Mathlib.Tactic.Positivity
import Mathlib.Tactic.Ring

/-! # Rounding to a given number

A positive number has the parts `mantissa` and `shift` of a `Binary.Positive`.  The reals that
round to it lie between the midpoints to its neighbours, and the midpoints belong to it if the
mantissa is even; below the least mantissa of 53 bits the lower neighbour is twice as close
(`Binary.RoundsTo`).

* `Binary.ofRatio_eq`: a fraction that rounds to a number is rounded to it.
* `Reader.ofDecimal_eq`: a decimal that rounds to a number is read as it, so the powers of ten
  that the reader does not compute make no difference. -/

namespace TwinTape

theorem twoTo_eq (n : ℕ) : twoTo n = 2 ^ n := rfl

theorem tenTo_eq (n : ℕ) : tenTo n = 10 ^ n := rfl

namespace Binary

theorem unitsPerOne_eq : unitsPerOne = 2 ^ 1074 := twoTo_eq 1074

theorem leastNormal_eq : leastNormal = 2 ^ 52 := rfl

theorem infinityBits_eq : infinityBits = 2047 * 2 ^ 52 := rfl

/-! ### Halves to even -/

/-- A fraction is rounded to the integer that it is nearest to, and of two to the even one. -/
theorem roundHalfEven_eq {num den q : ℕ} (hden : 0 < den) (hlow : 2 * (q * den) ≤ 2 * num + den)
    (hhigh : 2 * num ≤ 2 * (q * den) + den)
    (htie : q % 2 = 1 → 2 * (q * den) < 2 * num + den ∧ 2 * num < 2 * (q * den) + den) :
    roundHalfEven num den = q := by
  have hsplit := Nat.div_add_mod num den
  have hmod := Nat.mod_lt num hden
  unfold roundHalfEven
  generalize num / den = k at *
  generalize num % den = r at *
  subst hsplit
  have hle : k ≤ q := by
    by_contra hlt
    have := Nat.mul_le_mul_right den (show q + 1 ≤ k by omega)
    rw [Nat.add_mul, one_mul, Nat.mul_comm k] at this
    omega
  have hge : q ≤ k + 1 := by
    by_contra hlt
    have := Nat.mul_le_mul_right den (show k + 2 ≤ q by omega)
    rw [Nat.add_mul, Nat.mul_comm k] at this
    omega
  obtain rfl | rfl : q = k ∨ q = k + 1 := by omega
  · rw [Nat.mul_comm q den] at hlow hhigh htie
    dsimp only
    split
    · rfl
    · rw [if_neg (by omega)]
      have heven : q % 2 = 0 := by
        by_contra hodd
        have := htie (by omega)
        omega
      omega
  · rw [Nat.add_mul, one_mul, Nat.mul_comm k den] at hlow hhigh htie
    dsimp only
    rw [if_neg (by omega)]
    split
    · rfl
    · have heven : (k + 1) % 2 = 0 := by
        by_contra hodd
        have := htie (by omega)
        omega
      omega

/-! ### The numbers that round to a number -/

/-- The parts of a positive number. -/
structure Positive (mantissa shift : ℕ) : Prop where
  pos : 0 < mantissa
  lt : mantissa < 2 ^ 53
  normal : shift = 0 ∨ 2 ^ 52 ≤ mantissa
  finite : shift ≤ 2045

/-- Twice the part of the distance to the next lower number that rounds to a number, in halves of
the distance to the next greater one. -/
def gap (mantissa shift : ℕ) : ℕ := if mantissa = leastNormal ∧ 0 < shift then 1 else 2

/-- The value `x`, in units of `2 ^ -1074`, rounds to `mantissa * 2 ^ shift`. -/
structure RoundsTo (mantissa shift : ℕ) (x : ℚ) : Prop where
  low : 4 * (mantissa : ℚ) * 2 ^ shift ≤ 4 * x + gap mantissa shift * 2 ^ shift
  high : 4 * x ≤ (4 * mantissa + 2) * 2 ^ shift
  tie : mantissa % 2 = 1 → 4 * (mantissa : ℚ) * 2 ^ shift < 4 * x + gap mantissa shift * 2 ^ shift ∧
    4 * x < (4 * mantissa + 2) * 2 ^ shift

variable {m s num den : ℕ} {x : ℚ}

theorem gap_le (m s : ℕ) : gap m s ≤ 2 := by
  unfold gap
  split <;> omega

theorem RoundsTo.half_le (h : RoundsTo m s x) (hm : Positive m s) : 1 / 2 ≤ x := by
  have hlow := h.low
  have hpos : (1 : ℚ) ≤ m := by exact_mod_cast hm.pos
  have hgap : (gap m s : ℚ) ≤ 2 := by exact_mod_cast gap_le m s
  have hpow : (1 : ℚ) ≤ 2 ^ s := one_le_pow₀ (by norm_num)
  nlinarith

theorem RoundsTo.lt_top (h : RoundsTo m s x) (hm : Positive m s) : x < 2 ^ 2098 := by
  have hhigh := h.high
  have hlt : (m : ℚ) + 1 ≤ 2 ^ 53 := by exact_mod_cast hm.lt
  have hpow : (2 : ℚ) ^ s ≤ 2 ^ 2045 := pow_le_pow_right₀ (by norm_num) hm.finite
  have hpos : (0 : ℚ) < 2 ^ s := by positivity
  calc x < (m + 1) * 2 ^ s := by nlinarith
    _ ≤ 2 ^ 53 * 2 ^ 2045 := by gcongr
    _ = 2 ^ 2098 := by rw [← pow_add]

/-! ### Fractions -/

/-- What rounds to a number, without division. -/
theorem RoundsTo.cross (h : RoundsTo m s ((num : ℚ) / den)) (hden : 0 < den) :
    4 * (m * (den * 2 ^ s)) ≤ 4 * num + gap m s * (den * 2 ^ s) ∧
      4 * num ≤ 4 * (m * (den * 2 ^ s)) + 2 * (den * 2 ^ s) ∧
      (m % 2 = 1 → 4 * (m * (den * 2 ^ s)) < 4 * num + gap m s * (den * 2 ^ s) ∧
        4 * num < 4 * (m * (den * 2 ^ s)) + 2 * (den * 2 ^ s)) := by
  have hpos : (0 : ℚ) < den := by exact_mod_cast hden
  have hx : (num : ℚ) / den * den = num := div_mul_cancel₀ _ hpos.ne'
  generalize (num : ℚ) / den = x at h hx
  refine ⟨?_, ?_, fun hodd => ⟨?_, ?_⟩⟩
  · have hlow := mul_le_mul_of_nonneg_right h.low hpos.le
    have : (4 * (m * (den * 2 ^ s)) : ℚ) ≤ 4 * num + gap m s * (den * 2 ^ s) := by
      rw [← hx]
      linarith
    exact_mod_cast this
  · have hhigh := mul_le_mul_of_nonneg_right h.high hpos.le
    have : (4 * num : ℚ) ≤ 4 * (m * (den * 2 ^ s)) + 2 * (den * 2 ^ s) := by
      rw [← hx]
      linarith
    exact_mod_cast this
  · have hlow := mul_lt_mul_of_pos_right (h.tie hodd).1 hpos
    have : (4 * (m * (den * 2 ^ s)) : ℚ) < 4 * num + gap m s * (den * 2 ^ s) := by
      rw [← hx]
      linarith
    exact_mod_cast this
  · have hhigh := mul_lt_mul_of_pos_right (h.tie hodd).2 hpos
    have : (4 * num : ℚ) < 4 * (m * (den * 2 ^ s)) + 2 * (den * 2 ^ s) := by
      rw [← hx]
      linarith
    exact_mod_cast this

/-- The shift is such that the quotient has 53 bits, if it has that many. -/
theorem shift_eq {t : ℕ} (hden : 0 < den) (hlow : t = 0 ∨ 2 ^ (52 + t) * den ≤ num)
    (hhigh : num < 2 ^ (53 + t) * den) : (num / den).log2 + 1 - 53 = t := by
  have hlt : num / den < 2 ^ (53 + t) := (Nat.div_lt_iff_lt_mul hden).2 hhigh
  rcases hlow with rfl | hlow
  · by_cases hzero : num / den = 0
    · simp [hzero]
    · have := (Nat.log2_lt hzero).2 hlt
      omega
  · have hle : 2 ^ (52 + t) ≤ num / den := (Nat.le_div_iff_mul_le hden).2 hlow
    have hzero : num / den ≠ 0 := (Nat.lt_of_lt_of_le (Nat.two_pow_pos _) hle).ne'
    have := (Nat.log2_lt hzero).2 hlt
    have := (Nat.le_log2 hzero).2 hle
    omega

theorem ofRatio_of_shift {t k : ℕ} (negative : Bool)
    (hshift : (num * unitsPerOne / den).log2 + 1 - 53 = t)
    (hround : roundHalfEven (num * unitsPerOne) (den * 2 ^ t) = k)
    (hfinite : t * 2 ^ 52 + k < infinityBits) :
    ofRatio negative num den = if k = 2 * leastNormal then .finite negative leastNormal (t + 1)
      else .finite negative k t := by
  unfold ofRatio
  simp only [hshift, twoTo_eq, hround]
  rw [if_neg (by omega)]

/-- Just below a power of two the shift is less by one, and the mantissa is rounded up. -/
theorem ofRatio_of_below {units t : ℕ} (negative : Bool) (hden : 0 < den) (ht : t < 2045)
    (hunits : num * unitsPerOne = units)
    (hlow : 2 * (2 ^ 53 * (den * 2 ^ t)) ≤ 2 * units + den * 2 ^ t)
    (hhigh : units < 2 ^ 53 * (den * 2 ^ t)) :
    ofRatio negative num den = .finite negative (2 ^ 52) (t + 1) := by
  have hpow : ∀ k, 2 ^ (k + t) * den = 2 ^ k * (den * 2 ^ t) := fun k => by ring
  have hround : roundHalfEven units (den * 2 ^ t) = 2 ^ 53 := by
    refine roundHalfEven_eq (by positivity) hlow ?_ (by simp)
    omega
  have hshift : (units / den).log2 + 1 - 53 = t := by
    refine shift_eq hden (.inr ?_) ?_
    · rw [hpow]
      omega
    · rwa [hpow]
  subst hunits
  rw [ofRatio_of_shift negative hshift hround (by rw [infinityBits_eq]; omega)]
  rfl

/-- At a number with a mantissa of 53 bits, and where the numbers lie closest. -/
theorem ofRatio_of_ge {units : ℕ} (negative : Bool) (hm : Positive m s) (hden : 0 < den)
    (hunits : num * unitsPerOne = units) (hge : s = 0 ∨ 2 ^ 52 * (den * 2 ^ s) ≤ units)
    (hlow : 2 * (m * (den * 2 ^ s)) ≤ 2 * units + den * 2 ^ s)
    (hhigh : 2 * units ≤ 2 * (m * (den * 2 ^ s)) + den * 2 ^ s)
    (htie : m % 2 = 1 → 2 * (m * (den * 2 ^ s)) < 2 * units + den * 2 ^ s ∧
      2 * units < 2 * (m * (den * 2 ^ s)) + den * 2 ^ s) :
    ofRatio negative num den = .finite negative m s := by
  have hpow : ∀ k, 2 ^ (k + s) * den = 2 ^ k * (den * 2 ^ s) := fun k => by ring
  have hpos : 0 < den * 2 ^ s := by positivity
  have hshift : (units / den).log2 + 1 - 53 = s := by
    refine shift_eq hden (hge.imp id fun hge => by rwa [hpow]) ?_
    have hle := Nat.mul_le_mul_right (den * 2 ^ s) (Nat.succ_le_of_lt hm.lt)
    rw [Nat.succ_mul] at hle
    rw [hpow]
    omega
  subst hunits
  rw [ofRatio_of_shift negative hshift (roundHalfEven_eq hpos hlow hhigh htie), if_neg]
  · have := hm.lt
    rw [leastNormal_eq]
    omega
  · have := hm.lt
    have := hm.finite
    rw [infinityBits_eq]
    omega

/-- **A fraction that rounds to a number is rounded to it.** -/
theorem ofRatio_eq (negative : Bool) (hm : Positive m s) (hden : 0 < den)
    (h : RoundsTo m s (((num * unitsPerOne : ℕ) : ℚ) / den)) :
    ofRatio negative num den = .finite negative m s := by
  obtain ⟨hlow, hhigh, htie⟩ := h.cross hden
  have hfinite := hm.finite
  generalize hunits : num * unitsPerOne = units at *
  have hgap := gap_le m s
  by_cases hbelow : 0 < s ∧ units < 2 ^ 52 * (den * 2 ^ s)
  · obtain ⟨hs, hbelow⟩ := hbelow
    obtain ⟨t, rfl⟩ : ∃ t, s = t + 1 := ⟨s - 1, by omega⟩
    have hmantissa : m = 2 ^ 52 := by
      have hle := hm.normal.resolve_left (by omega)
      by_contra hne
      have hmore := Nat.mul_le_mul_right (den * 2 ^ (t + 1)) (show 2 ^ 52 + 1 ≤ m by omega)
      have hless := Nat.mul_le_mul_right (den * 2 ^ (t + 1)) hgap
      rw [Nat.add_mul, one_mul] at hmore
      omega
    subst hmantissa
    have hdouble : den * 2 ^ (t + 1) = 2 * (den * 2 ^ t) := by ring
    have hone : gap (2 ^ 52) (t + 1) = 1 := by simp [gap, leastNormal_eq]
    rw [hone, hdouble] at hlow
    rw [hdouble] at hbelow
    refine ofRatio_of_below negative hden (by omega) hunits ?_ ?_
    · omega
    · omega
  · have hge : s = 0 ∨ 2 ^ 52 * (den * 2 ^ s) ≤ units := by omega
    refine ofRatio_of_ge negative hm hden hunits hge ?_ (by omega) fun hodd => ?_
    · by_cases hleast : m = leastNormal ∧ 0 < s
      · have := hge.resolve_left (by omega)
        rw [hleast.1, leastNormal_eq]
        omega
      · rw [gap, if_neg hleast] at hlow
        omega
    · have hless := Nat.mul_le_mul_right (den * 2 ^ s) hgap
      obtain ⟨hlow, hhigh⟩ := htie hodd
      omega

end Binary

/-! ### Decimals -/

theorem lt_pow_length_toDigits (n : ℕ) : n < 10 ^ (Nat.toDigits 10 n).length :=
  (Nat.length_toDigits_le_iff (by norm_num) Nat.length_toDigits_pos).1 le_rfl

theorem pow_length_toDigits_le {n : ℕ} (hn : 0 < n) :
    10 ^ ((Nat.toDigits 10 n).length - 1) ≤ n := by
  have hpos : 0 < (Nat.toDigits 10 n).length := Nat.length_toDigits_pos
  by_cases hone : (Nat.toDigits 10 n).length = 1
  · rw [hone]
    exact hn
  · by_contra hlt
    have := (Nat.length_toDigits_le_iff (b := 10) (by norm_num) (by omega)).2 (Nat.lt_of_not_le hlt)
    omega

namespace Reader
open Binary

variable {m s digits : ℕ} {exponent : ℤ}

theorem unitsPerOne_lt : 2 * unitsPerOne < 10 ^ 401 := by
  rw [unitsPerOne_eq]
  decide +kernel

theorem top_lt : 2 ^ 2098 < 10 ^ 400 * unitsPerOne := by
  rw [unitsPerOne_eq]
  decide +kernel

theorem digits_pos (hm : Positive m s) (h : RoundsTo m s (digits * 10 ^ exponent * unitsPerOne)) :
    0 < digits := by
  refine Nat.pos_of_ne_zero fun hzero => ?_
  have := h.half_le hm
  rw [hzero, Nat.cast_zero, zero_mul, zero_mul] at this
  exact absurd this (by norm_num)

/-- What rounds to a positive number does not lie below the powers of ten that are computed. -/
theorem magnitude_ge (hm : Positive m s)
    (h : RoundsTo m s (digits * 10 ^ exponent * unitsPerOne)) :
    -400 ≤ (Nat.toDigits 10 digits).length + exponent := by
  by_contra hlt
  have hdigits : (digits : ℚ) < 10 ^ ((Nat.toDigits 10 digits).length : ℤ) := by
    rw [zpow_natCast]
    exact_mod_cast lt_pow_length_toDigits digits
  have hunits : (2 : ℚ) * unitsPerOne < 10 ^ (401 : ℤ) := by exact_mod_cast unitsPerOne_lt
  have hpow : (0 : ℚ) < 10 ^ exponent := by positivity
  have hsmall : (digits : ℚ) * 10 ^ exponent ≤ 10 ^ (-401 : ℤ) := by
    calc (digits : ℚ) * 10 ^ exponent
        ≤ 10 ^ ((Nat.toDigits 10 digits).length : ℤ) * 10 ^ exponent := by gcongr
      _ = 10 ^ ((Nat.toDigits 10 digits).length + exponent) := (zpow_add₀ (by norm_num) _ _).symm
      _ ≤ 10 ^ (-401 : ℤ) := zpow_le_zpow_right₀ (by norm_num) (by omega)
  have hhalf : (1 : ℚ) < 1 := by
    calc (1 : ℚ) ≤ 2 * (digits * 10 ^ exponent * unitsPerOne) := by linarith [h.half_le hm]
      _ ≤ 10 ^ (-401 : ℤ) * (2 * unitsPerOne) := by nlinarith
      _ < 10 ^ (-401 : ℤ) * 10 ^ (401 : ℤ) := by gcongr
      _ = 1 := by rw [← zpow_add₀ (by norm_num)]; norm_num
  exact lt_irrefl 1 hhalf

/-- What rounds to a number does not lie above the powers of ten that are computed. -/
theorem magnitude_le (hm : Positive m s)
    (h : RoundsTo m s (digits * 10 ^ exponent * unitsPerOne)) :
    (Nat.toDigits 10 digits).length + exponent ≤ 400 := by
  by_contra hlt
  have hpos : 0 < (Nat.toDigits 10 digits).length := Nat.length_toDigits_pos
  have hdigits : (10 : ℚ) ^ (((Nat.toDigits 10 digits).length - 1 : ℕ) : ℤ) ≤ digits := by
    rw [zpow_natCast]
    exact_mod_cast pow_length_toDigits_le (digits_pos hm h)
  have htop : (2 : ℚ) ^ 2098 < 10 ^ (400 : ℤ) * unitsPerOne := by exact_mod_cast top_lt
  have hpow : (0 : ℚ) < 10 ^ exponent := by positivity
  have hlarge : (10 : ℚ) ^ (400 : ℤ) ≤ digits * 10 ^ exponent := by
    calc (10 : ℚ) ^ (400 : ℤ)
        ≤ 10 ^ ((((Nat.toDigits 10 digits).length - 1 : ℕ) : ℤ) + exponent) :=
          zpow_le_zpow_right₀ (by norm_num) (by omega)
      _ = 10 ^ (((Nat.toDigits 10 digits).length - 1 : ℕ) : ℤ) * 10 ^ exponent :=
          zpow_add₀ (by norm_num) _ _
      _ ≤ digits * 10 ^ exponent := by gcongr
  have hunits : (0 : ℚ) ≤ unitsPerOne := Nat.cast_nonneg _
  exact lt_irrefl _ (((h.lt_top hm).trans htop).trans_le (mul_le_mul_of_nonneg_right hlarge hunits))

/-- **A decimal that rounds to a number is read as it.** -/
theorem ofDecimal_eq (negative : Bool) (hm : Positive m s)
    (h : RoundsTo m s (digits * 10 ^ exponent * unitsPerOne)) :
    ofDecimal negative digits exponent = .finite negative m s := by
  have hpos := digits_pos hm h
  have hlow := magnitude_ge hm h
  have hhigh := magnitude_le hm h
  unfold ofDecimal
  dsimp only
  rw [if_neg (by omega), if_neg (by omega)]
  by_cases hexponent : 0 ≤ exponent
  · obtain ⟨n, rfl⟩ := Int.eq_ofNat_of_zero_le hexponent
    rw [if_pos hexponent]
    refine ofRatio_eq negative hm one_pos ?_
    rw [zpow_natCast] at h
    -- The units are kept closed: they are a number of 324 digits.
    rw [Nat.cast_mul]
    generalize (unitsPerOne : ℚ) = units at h ⊢
    simpa [tenTo_eq] using h
  · obtain ⟨n, rfl⟩ : ∃ n : ℕ, exponent = -n := ⟨(-exponent).toNat, by omega⟩
    rw [if_neg hexponent]
    refine ofRatio_eq negative hm (by simp [tenTo_eq]) ?_
    rw [zpow_neg, zpow_natCast] at h
    rw [Nat.cast_mul]
    generalize (unitsPerOne : ℚ) = units at h ⊢
    simpa [tenTo_eq, div_eq_mul_inv, mul_right_comm] using h

end Reader
end TwinTape
