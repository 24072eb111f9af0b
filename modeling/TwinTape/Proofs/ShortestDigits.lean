import TwinTape.Number.Shortest
import TwinTape.Proofs.Rounding

/-! # The shortest digits read back

The interval of a number, in units of a quarter of `10 ^ -1074`, holds only points that round to
the number (`Interval.roundsTo_of_holds`), the search for few digits stays in the interval
(`Interval.holds_search`), and so the decimal that it finds rounds to the number
(`roundsTo_shortest`). -/

namespace TwinTape.Decimal
open Binary

namespace Interval
variable {i : Interval} {m s : ℕ}

/-- The units of `10 ^ -1074` in one of `2 ^ -1074`. -/
def fives : ℕ := Nat.pow 5 1074

/-- A quarter of the last place of a number, in quarters of `10 ^ -1074`. -/
def quarter (shift : ℕ) : ℕ := twoTo shift * fives

theorem fives_pos : 0 < fives := by decide +kernel

theorem fives_mul_unitsPerOne : (fives : ℚ) * unitsPerOne = 10 ^ 1074 := by
  have hfives : fives = 5 ^ 1074 := by decide +kernel
  rw [hfives, unitsPerOne_eq, Nat.cast_pow, Nat.cast_pow, ← mul_pow]
  norm_num

theorem ofParts_eq (m s : ℕ) : ofParts m s =
    ⟨4 * m * quarter s - gap m s * quarter s, 4 * m * quarter s,
      4 * m * quarter s + 2 * quarter s, m % 2 == 0⟩ := by
  have hgap : (if m = leastNormal ∧ 0 < s then quarter s else 2 * quarter s) =
      gap m s * quarter s := by
    unfold gap
    split
    · exact (one_mul _).symm
    · rfl
  rw [← hgap]
  unfold ofParts quarter fives
  dsimp only

theorem holds_iff (i : Interval) (point : ℕ) : i.holds point = true ↔
    i.low ≤ point ∧ point ≤ i.high ∧ (i.closed = false → i.low < point ∧ point < i.high) := by
  unfold holds
  cases i.closed
  · simp only [Bool.false_eq_true, if_false, Bool.and_eq_true, decide_eq_true_eq, true_imp_iff]
    omega
  · simp

/-- Each point of the interval rounds to the number. -/
theorem roundsTo_of_holds {point : ℕ} (h : (ofParts m s).holds point = true) :
    RoundsTo m s (point / (4 * fives)) := by
  rw [ofParts_eq, holds_iff] at h
  dsimp only at h
  obtain ⟨hlow, hhigh, hopen⟩ := h
  have hpos : (0 : ℚ) < fives := by exact_mod_cast fives_pos
  have hpoint : 4 * ((point : ℚ) / (4 * fives)) * fives = point := by
    field_simp
  generalize (point : ℚ) / (4 * fives) = x at hpoint
  have hquarter : (quarter s : ℚ) = 2 ^ s * fives := by
    rw [quarter, twoTo_eq]
    push_cast
    rfl
  refine ⟨?_, ?_, fun hodd => ?_⟩
  · have : (4 * m * quarter s : ℚ) ≤ point + gap m s * quarter s := by
      exact_mod_cast Nat.le_add_of_sub_le hlow
    rw [hquarter, ← hpoint] at this
    exact le_of_mul_le_mul_right (by linarith) hpos
  · have : (point : ℚ) ≤ 4 * m * quarter s + 2 * quarter s := by exact_mod_cast hhigh
    rw [hquarter, ← hpoint] at this
    exact le_of_mul_le_mul_right (by linarith) hpos
  · obtain ⟨hlow, hhigh⟩ := hopen (by simp [hodd])
    constructor
    · have : (4 * m * quarter s : ℚ) < point + gap m s * quarter s := by
        exact_mod_cast (by omega : 4 * m * quarter s < point + gap m s * quarter s)
      rw [hquarter, ← hpoint] at this
      exact lt_of_mul_lt_mul_right (by linarith) hpos.le
    · have : (point : ℚ) < 4 * m * quarter s + 2 * quarter s := by exact_mod_cast hhigh
      rw [hquarter, ← hpoint] at this
      exact lt_of_mul_lt_mul_right (by linarith) hpos.le

/-! ### The search -/

theorem holds_of_neighbour? {spacing factor : ℕ} (h : i.neighbour? spacing = some factor) :
    i.holds (factor * spacing) = true := by
  unfold neighbour? at h
  dsimp only at h
  split at h
  · split at h <;> cases h <;> assumption
  · cases h
    assumption
  · cases h
    assumption
  · contradiction

/-- **The search stays in the interval.** -/
theorem holds_search (hvalue : i.holds i.value = true) (hfour : 4 ∣ i.value) (grid : ℕ) :
    i.holds ((i.search grid).1 * (4 * tenTo (i.search grid).2)) = true := by
  induction grid with
  | zero =>
      have hsame : i.value / 4 * (4 * tenTo 0) = i.value := Nat.div_mul_cancel hfour
      rw [search, hsame]
      exact hvalue
  | succ grid ih =>
      rw [search]
      split
      · exact holds_of_neighbour? ‹_›
      · exact ih

theorem holds_value (hm : Positive m s) :
    (ofParts m s).holds (ofParts m s).value = true := by
  have hquarter : 0 < quarter s := Nat.mul_pos (Nat.two_pow_pos s) fives_pos
  have hgap : 0 < gap m s := by
    unfold gap
    split <;> omega
  have hprod := Nat.mul_pos hgap hquarter
  have hvalue := Nat.mul_pos (Nat.mul_pos (by omega : 0 < 4) hm.pos) hquarter
  rw [ofParts_eq, holds_iff]
  dsimp only
  omega

theorem four_dvd_value (m s : ℕ) : 4 ∣ (ofParts m s).value := by
  rw [ofParts_eq]
  exact ⟨m * quarter s, mul_assoc 4 m (quarter s)⟩

theorem digits_found (i : Interval) : i.found.digits = (i.search i.topGrid).1 := rfl

theorem exponent_found (i : Interval) :
    i.found.exponent = ((i.search i.topGrid).2 : ℤ) - 1074 := rfl

end Interval

theorem zpow_sub_mul_pow (n k : ℕ) : (10 : ℚ) ^ ((n : ℤ) - k) * 10 ^ k = 10 ^ n := by
  rw [zpow_sub₀ (by norm_num), zpow_natCast, zpow_natCast]
  exact div_mul_cancel₀ _ (by positivity)

theorem point_eq (digits grid : ℕ) :
    ((digits * (4 * tenTo grid) : ℕ) : ℚ) / (4 * Interval.fives) =
      digits * 10 ^ ((grid : ℤ) - 1074) * unitsPerOne := by
  have hpos : (4 * Interval.fives : ℚ) ≠ 0 := by
    exact_mod_cast (Nat.mul_pos (by omega : 0 < 4) Interval.fives_pos).ne'
  have hpow := zpow_sub_mul_pow grid 1074
  rw [← Interval.fives_mul_unitsPerOne, Nat.cast_ofNat] at hpow
  rw [div_eq_iff hpos, tenTo_eq]
  push_cast
  rw [← hpow]
  generalize (10 : ℚ) ^ ((grid : ℤ) - 1074) = power
  ring

/-- What the search finds rounds to a number, if all points of the interval do. -/
theorem Interval.roundsTo_found {i : Interval} {m s : ℕ} (hvalue : i.holds i.value = true)
    (hfour : 4 ∣ i.value)
    (hpoints : ∀ point, i.holds point = true → RoundsTo m s (point / (4 * Interval.fives))) :
    RoundsTo m s (i.found.digits * 10 ^ i.found.exponent * unitsPerOne) := by
  have h := hpoints _ (Interval.holds_search hvalue hfour i.topGrid)
  rw [point_eq] at h
  rwa [digits_found, exponent_found]

/-- **The decimal with the fewest digits rounds to the number.** -/
theorem roundsTo_shortest {m s : ℕ} (hm : Positive m s) :
    RoundsTo m s ((shortest m s).digits * 10 ^ (shortest m s).exponent * unitsPerOne) := by
  unfold shortest
  exact Interval.roundsTo_found (Interval.holds_value hm) (Interval.four_dvd_value m s)
    fun _ h => Interval.roundsTo_of_holds h

end TwinTape.Decimal
