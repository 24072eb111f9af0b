import TwinTape.JumpTable
import TwinTape.Proofs.Brackets

/-! # The jump table holds the loops

The pass over a program keeps one list of waiting openings for all kinds, each with an imbalance
of its own.  `Matching.Knows is n m` says what the list and the results are after `n`
instructions, with no reference to the pass:

* an opening of kind `k` waits exactly if the height of its kind has stayed above it, and its
  imbalance is how far above it the height is now;
* the loops found are the loops that end before `n`, and the strays the closings before `n`
  that end no loop.

An instruction keeps this (`Matching.Knows.read`), so it holds at the end (`knows_readAll`).  At a
closing bracket an imbalance of zero says that the height is back at the opening, so the entry
that is resolved is the partner, and entries of other kinds are never at zero. -/

namespace TwinTape

/-! ### Entries -/

theorem mem_map_shift {ps : List Pending} {k₀ k : Loop.Kind} {o : ℕ} {change d : ℤ} :
    (⟨k, o, d⟩ : Pending) ∈ ps.map (Pending.shift k₀ change) ↔
      (⟨k, o, d - if k₀ = k then change else 0⟩ : Pending) ∈ ps := by
  rw [List.mem_map]
  constructor
  · rintro ⟨⟨k', o', d'⟩, hp, he⟩
    unfold Pending.shift at he
    by_cases hk : k' = k₀
    · simp only [hk, if_true, Pending.mk.injEq] at he
      obtain ⟨rfl, rfl, rfl⟩ := he
      simpa [hk] using hp
    · simp only [hk, if_false, Pending.mk.injEq] at he
      obtain ⟨rfl, rfl, rfl⟩ := he
      simpa [Ne.symm hk] using hp
  · intro hp
    refine ⟨_, hp, ?_⟩
    by_cases hk : k₀ = k
    · simp [Pending.shift, hk]
    · simp [Pending.shift, hk, Ne.symm hk]

theorem opening_shift (k : Loop.Kind) (change : ℤ) (p : Pending) :
    (p.shift k change).opening = p.opening := by
  unfold Pending.shift
  split <;> rfl

/-- The entries stand in the order of their addresses. -/
def Ordered (ps : List Pending) : Prop := ps.Pairwise (·.opening < ·.opening)

theorem Ordered.map_shift {ps : List Pending} (h : Ordered ps) (k : Loop.Kind) (change : ℤ) :
    Ordered (ps.map (Pending.shift k change)) := by
  unfold Ordered at h ⊢
  rw [List.pairwise_map]
  simpa only [opening_shift] using h

theorem Ordered.mem_eraseP_iff {ps : List Pending} (h : Ordered ps) {p : Pending → Bool}
    (hp : ∀ x ∈ ps, ∀ y ∈ ps, p x → p y → x = y) (x : Pending) :
    x ∈ ps.eraseP p ↔ x ∈ ps ∧ ¬ p x := by
  constructor
  · intro hx
    have hmem := List.mem_of_mem_eraseP hx
    refine ⟨hmem, fun hpx => ?_⟩
    obtain ⟨a, l₁, l₂, hl, ha, rfl, he⟩ := List.exists_of_eraseP hmem hpx
    rw [he] at hx
    have hxa : x = a := hp x hmem a (by simp) hpx ha
    subst hxa
    unfold Ordered at h
    rw [List.pairwise_append, List.pairwise_cons] at h
    cases List.mem_append.1 hx with
    | inl h₁ => exact hl x h₁ hpx
    | inr h₂ => exact absurd (h.2.1.1 x h₂) (lt_irrefl _)
  · rintro ⟨hx, hpx⟩
    exact (List.mem_eraseP_of_neg hpx).2 hx

/-! ### What the pass knows -/

/-- What is true of the matching `m` after the first `n` instructions of `is`. -/
structure Matching.Knows (is : List Instruction) (n : ℕ) (m : Matching) : Prop where
  pending : ∀ k o d, (⟨k, o, d⟩ : Pending) ∈ m.pending ↔
    o < n ∧ bracketAt is o = some (k, .opening) ∧ d = height is k n - height is k o ∧
      ∀ i, o < i → i ≤ n → height is k o < height is k i
  ordered : Ordered m.pending
  loops : ∀ k o c, (⟨k, o, c⟩ : Loop) ∈ m.loops ↔ c < n ∧ Encloses is k o c
  loops_ordered : m.loops.Pairwise (fun l l' => l'.closing < l.closing)
  strays : ∀ c, c ∈ m.strays ↔
    c < n ∧ (∃ k, bracketAt is c = some (k, .closing)) ∧ ∀ k o, ¬ Encloses is k o c
  strays_ordered : m.strays.Pairwise (· > ·)

namespace Matching

theorem knows_zero (is : List Instruction) : Knows is 0 {} where
  pending := by simp
  ordered := List.Pairwise.nil
  loops := by simp
  loops_ordered := List.Pairwise.nil
  strays := by simp
  strays_ordered := List.Pairwise.nil

variable {is : List Instruction} {n : ℕ} {m : Matching}

/-- Before anything else, the imbalances follow the height. -/
theorem Knows.shifted (h : Knows is n m) {k₀ : Loop.Kind} {change : ℤ}
    (hrise : ∀ k, rise is k n = if k₀ = k then change else 0) (k : Loop.Kind) (o : ℕ) (d : ℤ) :
    (⟨k, o, d⟩ : Pending) ∈ m.pending.map (Pending.shift k₀ change) ↔
      o < n ∧ bracketAt is o = some (k, .opening) ∧ d = height is k (n + 1) - height is k o ∧
        ∀ i, o < i → i ≤ n → height is k o < height is k i := by
  rw [mem_map_shift, h.pending, height_succ, hrise]
  constructor
  · rintro ⟨h₁, h₂, h₃, h₄⟩
    exact ⟨h₁, h₂, by omega, h₄⟩
  · rintro ⟨h₁, h₂, h₃, h₄⟩
    exact ⟨h₁, h₂, by omega, h₄⟩

theorem rise_at_opening {k₀ : Loop.Kind} (hb : bracketAt is n = some (k₀, .opening))
    (k : Loop.Kind) : rise is k n = if k₀ = k then 1 else 0 := by simp [rise, hb]

theorem rise_at_closing {k₀ : Loop.Kind} (hb : bracketAt is n = some (k₀, .closing))
    (k : Loop.Kind) : rise is k n = if k₀ = k then -1 else 0 := by simp [rise, hb]

theorem lt_and_iff_of_not {p : ℕ → Prop} (hn : ¬ p n) (c : ℕ) :
    c < n ∧ p c ↔ c < n + 1 ∧ p c := by
  refine and_congr_left fun hc => ⟨fun h => by omega, fun h => ?_⟩
  have : c ≠ n := fun he => hn (he ▸ hc)
  omega

theorem eq_or_lt_and_iff {p : ℕ → Prop} (hn : p n) (c : ℕ) :
    c = n ∨ c < n ∧ p c ↔ c < n + 1 ∧ p c := by
  constructor
  · rintro (rfl | ⟨h, hc⟩)
    · exact ⟨by omega, hn⟩
    · exact ⟨by omega, hc⟩
  · rintro ⟨h, hc⟩
    rcases Nat.lt_succ_iff_lt_or_eq.1 h with h | h
    · exact .inr ⟨h, hc⟩
    · exact .inl h

theorem Knows.results_of_not_closing (h : Knows is n m)
    (hb : ∀ k, bracketAt is n ≠ some (k, .closing)) :
    (∀ k o c, (⟨k, o, c⟩ : Loop) ∈ m.loops ↔ c < n + 1 ∧ Encloses is k o c) ∧
    ∀ c, c ∈ m.strays ↔
      c < n + 1 ∧ (∃ k, bracketAt is c = some (k, .closing)) ∧ ∀ k o, ¬ Encloses is k o c := by
  constructor
  · intro k o c
    rw [h.loops]
    apply lt_and_iff_of_not
    exact fun he => hb k he.closing
  · intro c
    rw [h.strays]
    apply lt_and_iff_of_not
    rintro ⟨⟨k, hk⟩, -⟩
    exact hb k hk

theorem Knows.skip (h : Knows is n m) (hb : bracketAt is n = none) : Knows is (n + 1) m := by
  have hres := h.results_of_not_closing (by simp [hb])
  refine ⟨fun k o d => ?_, h.ordered, hres.1, h.loops_ordered, hres.2, h.strays_ordered⟩
  have hs := height_succ is k n
  rw [rise_of_none hb] at hs
  rw [h.pending]
  constructor
  · rintro ⟨h₁, h₂, h₃, h₄⟩
    refine ⟨by omega, h₂, by omega, fun i hi hin => ?_⟩
    rcases Nat.lt_succ_iff_lt_or_eq.1 (Nat.lt_succ_of_le hin) with hi' | rfl
    · exact h₄ i hi (by omega)
    · have := h₄ n h₁ le_rfl
      omega
  · rintro ⟨h₁, h₂, h₃, h₄⟩
    have hon : o ≠ n := by
      rintro rfl
      simp [hb] at h₂
    exact ⟨by omega, h₂, by omega, fun i hi hin => h₄ i hi (by omega)⟩

theorem Knows.readOpening (h : Knows is n m) {k₀ : Loop.Kind}
    (hb : bracketAt is n = some (k₀, .opening)) : Knows is (n + 1) (m.readOpening k₀ n) := by
  have hres := h.results_of_not_closing (by simp [hb])
  have hshift := h.shifted (rise_at_opening hb)
  refine ⟨fun k o d => ?_, ?_, hres.1, h.loops_ordered, hres.2, h.strays_ordered⟩
  · have hs := height_succ is k n
    simp only [Matching.readOpening, List.map_append, List.mem_append, hshift, List.map_cons,
      List.map_nil, List.mem_singleton, Pending.shift, if_true, Pending.mk.injEq]
    constructor
    · rintro (⟨h₁, h₂, h₃, h₄⟩ | ⟨rfl, rfl, rfl⟩)
      · refine ⟨by omega, h₂, h₃, fun i hi hin => ?_⟩
        rcases Nat.lt_succ_iff_lt_or_eq.1 (Nat.lt_succ_of_le hin) with hi' | rfl
        · exact h₄ i hi (by omega)
        · have := h₄ n h₁ le_rfl
          have hr := rise_at_opening hb k
          split at hr <;> omega
      · rw [rise_opening hb] at hs
        refine ⟨by omega, hb, by omega, fun i hi hin => ?_⟩
        obtain rfl : i = o + 1 := by omega
        omega
    · rintro ⟨h₁, h₂, h₃, h₄⟩
      rcases Nat.lt_succ_iff_lt_or_eq.1 h₁ with h₁ | rfl
      · exact .inl ⟨h₁, h₂, h₃, fun i hi hin => h₄ i hi (by omega)⟩
      · obtain rfl : k = k₀ := by simp_all
        rw [rise_opening hb] at hs
        exact .inr ⟨rfl, rfl, by omega⟩
  · have hlast : Ordered (m.pending ++ [⟨k₀, n, 0⟩]) := by
      refine List.pairwise_append.2 ⟨h.ordered, List.pairwise_singleton _ _, ?_⟩
      rintro ⟨k, o, d⟩ hp q hq
      rw [List.mem_singleton] at hq
      subst hq
      exact ((h.pending k o d).1 hp).1
    exact hlast.map_shift k₀ 1

/-- After a closing bracket has counted, the entries at zero are its partner. -/
theorem Knows.zero_iff_encloses (h : Knows is n m) {k₀ : Loop.Kind}
    (hb : bracketAt is n = some (k₀, .closing)) (k : Loop.Kind) (o : ℕ) :
    (⟨k, o, 0⟩ : Pending) ∈ m.pending.map (Pending.shift k₀ (-1)) ↔ Encloses is k o n := by
  rw [h.shifted (rise_at_closing hb), encloses_iff_height]
  have hs := height_succ is k n
  constructor
  · rintro ⟨h₁, h₂, h₃, h₄⟩
    have hn := h₄ n h₁ le_rfl
    have hr : rise is k n < 0 := by omega
    exact ⟨h₁, h₂, closing_of_fall hr, by omega, h₄⟩
  · rintro ⟨h₁, h₂, h₃, h₄, h₅⟩
    exact ⟨h₁, h₂, by omega, h₅⟩

/-- The other entries are above zero: their openings wait on. -/
theorem Knows.left_iff_waits (h : Knows is n m) {k₀ : Loop.Kind}
    (hb : bracketAt is n = some (k₀, .closing)) (k : Loop.Kind) (o : ℕ) (d : ℤ) :
    (⟨k, o, d⟩ : Pending) ∈ m.pending.map (Pending.shift k₀ (-1)) ∧ d ≠ 0 ↔
      o < n + 1 ∧ bracketAt is o = some (k, .opening) ∧ d = height is k (n + 1) - height is k o ∧
        ∀ i, o < i → i ≤ n + 1 → height is k o < height is k i := by
  have hs := height_succ is k n
  have hr := rise_bounds is k n
  rw [h.shifted (rise_at_closing hb)]
  constructor
  · rintro ⟨⟨h₁, h₂, h₃, h₄⟩, hd⟩
    refine ⟨by omega, h₂, h₃, fun i hi hin => ?_⟩
    rcases Nat.lt_succ_iff_lt_or_eq.1 (Nat.lt_succ_of_le hin) with hi' | rfl
    · exact h₄ i hi (by omega)
    · have := h₄ n h₁ le_rfl
      omega
  · rintro ⟨h₁, h₂, h₃, h₄⟩
    have hon : o ≠ n := by
      rintro rfl
      simp [hb] at h₂
    have := h₄ (n + 1) (by omega) le_rfl
    exact ⟨⟨by omega, h₂, h₃, fun i hi hin => h₄ i hi (by omega)⟩, by omega⟩

theorem Knows.zero_unique (h : Knows is n m) {k₀ : Loop.Kind}
    (hb : bracketAt is n = some (k₀, .closing)) :
    ∀ x ∈ m.pending.map (Pending.shift k₀ (-1)), ∀ y ∈ m.pending.map (Pending.shift k₀ (-1)),
      x.imbalance == 0 → y.imbalance == 0 → x = y := by
  rintro ⟨k, o, d⟩ hx ⟨k', o', d'⟩ hy hdx hdy
  obtain rfl : d = 0 := by simpa using hdx
  obtain rfl : d' = 0 := by simpa using hdy
  have he := (h.zero_iff_encloses hb k o).1 hx
  obtain ⟨rfl, rfl⟩ := he.opening_unique ((h.zero_iff_encloses hb k' o').1 hy)
  rfl

/-- A closing bracket that resolves an entry ends a loop. -/
theorem Knows.resolve (h : Knows is n m) {k₀ : Loop.Kind}
    (hb : bracketAt is n = some (k₀, .closing)) {p : Pending}
    (hf : (m.pending.map (Pending.shift k₀ (-1))).find? (·.imbalance == 0) = some p) :
    Knows is (n + 1)
      ⟨(m.pending.map (Pending.shift k₀ (-1))).eraseP (·.imbalance == 0),
        ⟨p.kind, p.opening, n⟩ :: m.loops, m.strays⟩ := by
  have hord := h.ordered.map_shift k₀ (-1)
  obtain ⟨kp, op, dp⟩ := p
  obtain rfl : dp = 0 := by simpa using List.find?_some hf
  have henc : Encloses is kp op n :=
    (h.zero_iff_encloses hb kp op).1 (List.mem_of_find?_eq_some hf)
  refine ⟨fun k o d => ?_, hord.sublist List.eraseP_sublist, fun k o c => ?_, ?_, fun c => ?_,
    h.strays_ordered⟩
  · simp only [hord.mem_eraseP_iff (h.zero_unique hb), beq_iff_eq]
    exact h.left_iff_waits hb k o d
  · simp only [List.mem_cons, Loop.mk.injEq, h.loops]
    constructor
    · rintro (⟨rfl, rfl, rfl⟩ | ⟨hc, he⟩)
      · exact ⟨by omega, henc⟩
      · exact ⟨by omega, he⟩
    · rintro ⟨hc, he⟩
      rcases Nat.lt_succ_iff_lt_or_eq.1 hc with hc | rfl
      · exact .inr ⟨hc, he⟩
      · obtain ⟨rfl, rfl⟩ := henc.opening_unique he
        exact .inl ⟨rfl, rfl, rfl⟩
  · refine List.Pairwise.cons ?_ h.loops_ordered
    rintro ⟨k, o, c⟩ hl
    exact ((h.loops k o c).1 hl).1
  · rw [h.strays]
    apply lt_and_iff_of_not
    rintro ⟨-, hno⟩
    exact hno kp op henc

/-- A closing bracket that resolves no entry ends no loop. -/
theorem Knows.stray (h : Knows is n m) {k₀ : Loop.Kind}
    (hb : bracketAt is n = some (k₀, .closing))
    (hf : (m.pending.map (Pending.shift k₀ (-1))).find? (·.imbalance == 0) = none) :
    Knows is (n + 1) ⟨m.pending.map (Pending.shift k₀ (-1)), m.loops, n :: m.strays⟩ := by
  rw [List.find?_eq_none] at hf
  have hno : ∀ k o, ¬ Encloses is k o n := fun k o he => by
    simpa using hf _ ((h.zero_iff_encloses hb k o).2 he)
  refine ⟨fun k o d => ?_, h.ordered.map_shift k₀ (-1), fun k o c => ?_, h.loops_ordered,
    fun c => ?_, ?_⟩
  · rw [← h.left_iff_waits hb]
    exact ⟨fun hp => ⟨hp, by simpa using hf _ hp⟩, fun hp => hp.1⟩
  · rw [h.loops]
    apply lt_and_iff_of_not
    exact hno k o
  · rw [List.mem_cons, h.strays]
    apply eq_or_lt_and_iff
    exact ⟨⟨k₀, hb⟩, hno⟩
  · refine List.Pairwise.cons ?_ h.strays_ordered
    intro c hc
    exact ((h.strays c).1 hc).1

theorem Knows.readClosing (h : Knows is n m) {k₀ : Loop.Kind}
    (hb : bracketAt is n = some (k₀, .closing)) : Knows is (n + 1) (m.readClosing k₀ n) := by
  unfold Matching.readClosing
  cases hf : (m.pending.map (Pending.shift k₀ (-1))).find? (·.imbalance == 0) with
  | some p =>
      simp only [hf]
      exact h.resolve hb hf
  | none =>
      simp only [hf]
      exact h.stray hb hf

theorem Knows.read (h : Knows is n m) {i : Instruction} (hi : is[n]? = some i) :
    Knows is (n + 1) (m.read n i) := by
  have hb : bracketAt is n = i.bracket? := by simp [bracketAt, hi]
  unfold Matching.read
  rcases hk : i.bracket? with _ | ⟨k, _ | _⟩
  · exact h.skip (hb.trans hk)
  · exact h.readOpening (hb.trans hk)
  · exact h.readClosing (hb.trans hk)

theorem Knows.readAll (h : Knows is n m) (hn : n ≤ is.length) {js : List Instruction}
    (hjs : is.drop n = js) : Knows is is.length (m.readAll n js) := by
  induction js generalizing n m with
  | nil =>
      obtain rfl : n = is.length := le_antisymm hn (List.drop_eq_nil_iff.1 hjs)
      exact h
  | cons i js ih =>
      have hi : is[n]? = some i := by
        rw [← List.head?_drop, hjs, List.head?_cons]
      refine ih (h.read hi) (List.getElem?_eq_some_iff.1 hi).1 ?_
      rw [← List.tail_drop, hjs, List.tail_cons]

/-- What the pass knows at the end of a program. -/
theorem knows_readAll (is : List Instruction) : Knows is is.length (readAll {} 0 is) :=
  (knows_zero is).readAll (Nat.zero_le _) rfl

end Matching

end TwinTape
