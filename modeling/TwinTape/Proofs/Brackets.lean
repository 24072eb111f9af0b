import TwinTape.Loop
import Mathlib.Data.Nat.Find
import Mathlib.Tactic.Ring

/-! # Brackets of one kind

The brackets of one kind in a list of instructions form a word of openings and closings
(`sides`).  The word is `Balanced` when it has as many closings as openings and no prefix has
more.  `Encloses is k o c` says that the brackets at `o` and `c` are the two ends of a loop of
kind `k`: an opening and a closing with a balanced word between them.  Brackets of other kinds
play no part in it.

Everything is computed from one function of the address, the `height`: the openings less the
closings of the kind before it.  An opening is closed where the height first comes back to what
it was (`encloses_iff_height`), so a bracket has at most one partner (`Encloses.closing_unique`,
`Encloses.opening_unique`), and an opening has none exactly if the height stays above it
(`exists_encloses_of_low`). -/

namespace TwinTape

/-! ### Words -/

/-- The kind and side of the bracket at an address, if there is one. -/
def bracketAt (is : List Instruction) (a : ℕ) : Option (Loop.Kind × Loop.Side) :=
  is[a]?.bind Instruction.bracket?

/-- The side of an instruction that is a bracket of kind `k`. -/
def sideOf (k : Loop.Kind) (i : Instruction) : Option Loop.Side :=
  match i.bracket? with
  | some (k', s) => if k' = k then some s else none
  | none => none

/-- The word of the brackets of kind `k`. -/
def sides (k : Loop.Kind) (is : List Instruction) : List Loop.Side := is.filterMap (sideOf k)

/-- Openings less closings. -/
def excess (w : List Loop.Side) : ℤ := (w.count .opening : ℤ) - (w.count .closing : ℤ)

/-- As many closings as openings, and in no prefix more closings than openings. -/
def Balanced (w : List Loop.Side) : Prop := excess w = 0 ∧ ∀ u, u <+: w → 0 ≤ excess u

@[simp] theorem excess_nil : excess [] = 0 := rfl

theorem excess_append (u v : List Loop.Side) : excess (u ++ v) = excess u + excess v := by
  simp only [excess, List.count_append]
  push_cast
  ring

theorem excess_cons (s : Loop.Side) (w : List Loop.Side) :
    excess (s :: w) = excess [s] + excess w := excess_append [s] w

@[simp] theorem excess_opening : excess [.opening] = 1 := rfl

@[simp] theorem excess_closing : excess [.closing] = -1 := rfl

theorem balanced_nil : Balanced [] := by
  refine ⟨rfl, fun u hu => ?_⟩
  rw [List.prefix_nil.1 hu, excess_nil]

theorem Balanced.append {u v : List Loop.Side} (hu : Balanced u) (hv : Balanced v) :
    Balanced (u ++ v) := by
  refine ⟨by rw [excess_append, hu.1, hv.1]; rfl, fun w hw => ?_⟩
  rcases List.prefix_or_prefix_of_prefix hw (List.prefix_append u v) with h | ⟨t, rfl⟩
  · exact hu.2 w h
  · have := hv.2 t ((List.prefix_append_right_inj u).1 hw)
    rw [excess_append, hu.1]
    omega

theorem Balanced.wrap {w : List Loop.Side} (hw : Balanced w) :
    Balanced (.opening :: w ++ [.closing]) := by
  constructor
  · rw [List.cons_append, excess_cons, excess_append, hw.1]
    rfl
  · intro u hu
    cases u with
    | nil => rw [excess_nil]
    | cons s u =>
        rw [List.cons_append, List.cons_prefix_cons] at hu
        obtain ⟨rfl, hu⟩ := hu
        rw [excess_cons, excess_opening]
        rcases List.prefix_concat_iff.1 hu with rfl | h
        · rw [excess_append, hw.1, excess_closing]
          omega
        · have := hw.2 u h
          omega

theorem sides_append (k : Loop.Kind) (is js : List Instruction) :
    sides k (is ++ js) = sides k is ++ sides k js := List.filterMap_append

/-- The words of the prefixes are the prefixes of the word. -/
theorem balanced_sides_iff (k : Loop.Kind) (is : List Instruction) :
    Balanced (sides k is) ↔
      excess (sides k is) = 0 ∧ ∀ n, n ≤ is.length → 0 ≤ excess (sides k (is.take n)) := by
  refine and_congr_right fun _ => ⟨fun h n _ => ?_, fun h u hu => ?_⟩
  · exact h _ ((List.take_prefix n is).filterMap (sideOf k))
  · obtain ⟨js, hjs, rfl⟩ := List.prefix_filterMap_iff.1 hu
    have := h js.length hjs.length_le
    rwa [← List.prefix_iff_eq_take.1 hjs] at this

/-! ### Heights -/

/-- Openings less closings of kind `k` before the address `n`. -/
def height (is : List Instruction) (k : Loop.Kind) (n : ℕ) : ℤ := excess (sides k (is.take n))

/-- What the bracket at an address adds to the height of kind `k`. -/
def rise (is : List Instruction) (k : Loop.Kind) (n : ℕ) : ℤ :=
  match bracketAt is n with
  | some (k', .opening) => if k' = k then 1 else 0
  | some (k', .closing) => if k' = k then -1 else 0
  | none => 0

theorem height_succ (is : List Instruction) (k : Loop.Kind) (n : ℕ) :
    height is k (n + 1) = height is k n + rise is k n := by
  unfold height rise bracketAt
  cases hi : is[n]? with
  | none =>
      rw [List.getElem?_eq_none_iff] at hi
      rw [List.take_of_length_le (by omega), List.take_of_length_le hi]
      simp
  | some i =>
      rw [List.take_add_one, hi, sides_append, excess_append]
      simp only [Option.toList_some, Option.bind_some, sides, List.filterMap_cons, sideOf,
        List.filterMap_nil]
      rcases hb : i.bracket? with _ | ⟨k', _ | _⟩
      · rfl
      all_goals by_cases hk : k' = k <;> simp [hk]

theorem rise_opening {is : List Instruction} {k : Loop.Kind} {n : ℕ}
    (h : bracketAt is n = some (k, .opening)) : rise is k n = 1 := by simp [rise, h]

theorem rise_closing {is : List Instruction} {k : Loop.Kind} {n : ℕ}
    (h : bracketAt is n = some (k, .closing)) : rise is k n = -1 := by simp [rise, h]

theorem rise_of_none {is : List Instruction} {k : Loop.Kind} {n : ℕ}
    (h : bracketAt is n = none) : rise is k n = 0 := by simp [rise, h]

theorem rise_bounds (is : List Instruction) (k : Loop.Kind) (n : ℕ) :
    -1 ≤ rise is k n ∧ rise is k n ≤ 1 := by
  unfold rise
  split <;> try split
  all_goals omega

theorem opening_of_rise {is : List Instruction} {k : Loop.Kind} {n : ℕ} (h : 0 < rise is k n) :
    bracketAt is n = some (k, .opening) := by
  rcases hb : bracketAt is n with _ | ⟨k', _ | _⟩
  · simp [rise, hb] at h
  all_goals by_cases hk : k' = k <;> simp_all [rise]

theorem closing_of_fall {is : List Instruction} {k : Loop.Kind} {n : ℕ} (h : rise is k n < 0) :
    bracketAt is n = some (k, .closing) := by
  rcases hb : bracketAt is n with _ | ⟨k', _ | _⟩
  · simp [rise, hb] at h
  all_goals by_cases hk : k' = k <;> simp_all [rise]

theorem lt_length_of_bracketAt {is : List Instruction} {n : ℕ} {b : Loop.Kind × Loop.Side}
    (h : bracketAt is n = some b) : n < is.length := by
  obtain ⟨i, hi, _⟩ := Option.bind_eq_some_iff.1 h
  exact (List.getElem?_eq_some_iff.1 hi).1

/-! ### Loops -/

/-- The brackets at `o` and `c` are the two ends of a loop of kind `k`. -/
structure Encloses (is : List Instruction) (k : Loop.Kind) (o c : ℕ) : Prop where
  lt : o < c
  opening : bracketAt is o = some (k, .opening)
  closing : bracketAt is c = some (k, .closing)
  /-- The brackets of the kind strictly between them. -/
  balanced : Balanced (sides k ((is.take c).drop (o + 1)))

theorem height_add_excess (is : List Instruction) (k : Loop.Kind) {a b : ℕ} (h : a ≤ b) :
    height is k a + excess (sides k ((is.take b).drop a)) = height is k b := by
  have e := List.take_append_drop a (is.take b)
  rw [List.take_take, Nat.min_eq_left h] at e
  unfold height
  rw [← excess_append, ← sides_append, e]

/-- A loop ends where the height first comes back to what it was before the loop. -/
theorem encloses_iff_height {is : List Instruction} {k : Loop.Kind} {o c : ℕ} :
    Encloses is k o c ↔ o < c ∧ bracketAt is o = some (k, .opening) ∧
      bracketAt is c = some (k, .closing) ∧ height is k (c + 1) = height is k o ∧
      ∀ i, o < i → i ≤ c → height is k o < height is k i := by
  constructor
  · rintro ⟨hlt, ho, hc, hbal⟩
    have so := height_succ is k o
    have sc := height_succ is k c
    rw [rise_opening ho] at so
    rw [rise_closing hc] at sc
    rw [balanced_sides_iff] at hbal
    obtain ⟨hsum, hpre⟩ := hbal
    have hall := height_add_excess is k (show o + 1 ≤ c from hlt)
    refine ⟨hlt, ho, hc, by omega, fun i hi hic => ?_⟩
    have hclen := lt_length_of_bracketAt hc
    have := hpre (i - (o + 1)) (by simp; omega)
    rw [List.take_drop, List.take_take, Nat.min_eq_left (by omega),
      Nat.add_sub_cancel' (by omega)] at this
    have hi := height_add_excess is k (show o + 1 ≤ i from hi)
    omega
  · rintro ⟨hlt, ho, hc, heq, habove⟩
    have so := height_succ is k o
    have sc := height_succ is k c
    rw [rise_opening ho] at so
    rw [rise_closing hc] at sc
    refine ⟨hlt, ho, hc, (balanced_sides_iff ..).2 ⟨?_, fun n hn => ?_⟩⟩
    · have hall := height_add_excess is k (show o + 1 ≤ c from hlt)
      omega
    · have hclen := lt_length_of_bracketAt hc
      simp at hn
      have hi := height_add_excess is k (show o + 1 ≤ o + 1 + n by omega)
      have := habove (o + 1 + n) (by omega) (by omega)
      rw [List.take_drop, List.take_take, Nat.min_eq_left (by omega)]
      omega

theorem Encloses.closing_unique {is : List Instruction} {k k' : Loop.Kind} {o c c' : ℕ}
    (h : Encloses is k o c) (h' : Encloses is k' o c') : k' = k ∧ c' = c := by
  have hk : k' = k := by
    have := h.opening.symm.trans h'.opening
    simp_all
  subst hk
  obtain ⟨hlt, _, _, heq, habove⟩ := encloses_iff_height.1 h
  obtain ⟨hlt', _, _, heq', habove'⟩ := encloses_iff_height.1 h'
  refine ⟨rfl, ?_⟩
  by_contra hne
  cases Nat.lt_or_gt_of_ne hne with
  | inl hc =>
      have := habove (c' + 1) (by omega) (by omega)
      omega
  | inr hc =>
      have := habove' (c + 1) (by omega) (by omega)
      omega

theorem Encloses.opening_unique {is : List Instruction} {k k' : Loop.Kind} {o o' c : ℕ}
    (h : Encloses is k o c) (h' : Encloses is k' o' c) : k' = k ∧ o' = o := by
  have hk : k' = k := by
    have := h.closing.symm.trans h'.closing
    simp_all
  subst hk
  obtain ⟨hlt, _, _, heq, habove⟩ := encloses_iff_height.1 h
  obtain ⟨hlt', _, _, heq', habove'⟩ := encloses_iff_height.1 h'
  refine ⟨rfl, ?_⟩
  by_contra hne
  cases Nat.lt_or_gt_of_ne hne with
  | inl ho =>
      have := habove' o ho (by omega)
      omega
  | inr ho =>
      have := habove o' ho (by omega)
      omega

theorem Encloses.opening_ne_closing {is : List Instruction} {k k' : Loop.Kind} {a b c : ℕ}
    (h : Encloses is k a b) : ¬ Encloses is k' c a := by
  intro h'
  have := h.opening.symm.trans h'.closing
  simp at this

/-- An opening after which the height comes down again has a partner. -/
theorem exists_encloses_of_low {is : List Instruction} {k : Loop.Kind} {o n : ℕ}
    (ho : bracketAt is o = some (k, .opening)) (hn : o < n) (h : height is k n ≤ height is k o) :
    ∃ c, c < n ∧ Encloses is k o c := by
  have hex : ∃ i, o < i ∧ height is k i ≤ height is k o := ⟨n, hn, h⟩
  have hfind := Nat.find_spec hex
  have hmin : ∀ i, o < i → i < Nat.find hex → height is k o < height is k i := by
    intro i hi hlt
    have := Nat.find_min hex hlt
    by_contra hle
    exact this ⟨hi, by omega⟩
  have hle : Nat.find hex ≤ n := Nat.find_min' hex ⟨hn, h⟩
  generalize Nat.find hex = c at hfind hmin hle
  obtain ⟨hoc, hlow⟩ := hfind
  obtain ⟨c, rfl⟩ : ∃ d, c = d + 1 := ⟨c - 1, by omega⟩
  have so := height_succ is k o
  rw [rise_opening ho] at so
  have hne : o ≠ c := by
    rintro rfl
    omega
  have hc := hmin c (by omega) (by omega)
  have sc := height_succ is k c
  have bc := rise_bounds is k c
  refine ⟨c, by omega, encloses_iff_height.2
    ⟨by omega, ho, closing_of_fall (by omega), by omega, ?_⟩⟩
  intro i hi hic
  exact hmin i hi (by omega)

theorem exists_encloses_of_high {is : List Instruction} {k : Loop.Kind} {c n : ℕ}
    (hc : bracketAt is c = some (k, .closing)) (hn : n ≤ c)
    (h : height is k n ≤ height is k (c + 1)) : ∃ o, Encloses is k o c := by
  have sc := height_succ is k c
  rw [rise_closing hc] at sc
  -- The partner is the last address before `c` whose height is no greater than after `c`.
  have hex : ∃ d, d ≤ c ∧ height is k (c - d) ≤ height is k (c + 1) :=
    ⟨c - n, by omega, by rwa [Nat.sub_sub_self hn]⟩
  have hfind := Nat.find_spec hex
  have hmin : ∀ i, c - Nat.find hex < i → i ≤ c → height is k (c + 1) < height is k i := by
    intro i hi hic
    have hm := Nat.find_min hex (m := c - i) (by omega)
    rw [Nat.sub_sub_self hic] at hm
    by_contra hle
    exact hm ⟨by omega, by omega⟩
  generalize Nat.find hex = d at hfind hmin
  obtain ⟨hd, hlow⟩ := hfind
  have hdpos : d ≠ 0 := by
    rintro rfl
    rw [Nat.sub_zero] at hlow
    omega
  generalize ho : c - d = o at hlow hmin
  have hnext := hmin (o + 1) (by omega) (by omega)
  have so := height_succ is k o
  have bo := rise_bounds is k o
  refine ⟨o, encloses_iff_height.2 ⟨by omega, opening_of_rise (by omega), hc, by omega, ?_⟩⟩
  intro i hi hic
  have := hmin i hi hic
  omega

end TwinTape
