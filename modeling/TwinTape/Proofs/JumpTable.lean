import TwinTape.Proofs.Matching
import Mathlib.Data.List.Nodup
import Mathlib.Data.List.Sort

/-! # What a jump table says

`JumpTable.IsMatching is table` says that a table is the matching of the brackets of `is`, each
kind on its own: its jumps go both ways between the two ends of every loop and nowhere else, and
its unmatched addresses are the other brackets.  The table of a program is of this sort
(`isMatching_ofInstructions`), whatever brackets the program has and however they cross.

The machine reads a table through `JumpTable.target?` alone (`target?_eq_some_iff`). -/

namespace TwinTape

namespace JumpTable

/-- The table is the matching of the brackets of `is`. -/
structure IsMatching (is : List Instruction) (table : JumpTable) : Prop where
  /-- The jumps of a kind lead from each end of a loop of this kind to the other. -/
  mem_jumps : ∀ k a b, (a, b) ∈ table.jumps k ↔ Encloses is k a b ∨ Encloses is k b a
  /-- They are listed by address, with one jump for an address. -/
  jumps_ascending : ∀ k, (table.jumps k).Pairwise (fun p q => p.1 < q.1)
  /-- A bracket is sent along the jump of its own kind. -/
  target : ∀ a b, table.target? a = some b ↔
    ∃ k s, bracketAt is a = some (k, s) ∧ (a, b) ∈ table.jumps k
  /-- A bracket has a jump of its own kind or is unmatched, and not both. -/
  jump_or_unmatched : ∀ a k s, bracketAt is a = some (k, s) →
    (a ∈ table.unmatched ↔ ¬ ∃ b, (a, b) ∈ table.jumps k)
  /-- Other instructions are neither. -/
  no_bracket : ∀ a, bracketAt is a = none →
    a ∉ table.unmatched ∧ ∀ k b, (a, b) ∉ table.jumps k
  unmatched_ascending : table.unmatched.Pairwise (· < ·)
  /-- Within a kind, the unmatched closings come before the unmatched openings. -/
  closings_first : ∀ k o c, o ∈ table.unmatched → bracketAt is o = some (k, .opening) →
    c ∈ table.unmatched → bracketAt is c = some (k, .closing) → ¬ o < c

variable {is : List Instruction}

/-! ### Jumps -/

theorem mem_loops_iff {k : Loop.Kind} {o c : ℕ} :
    (⟨k, o, c⟩ : Loop) ∈ (ofInstructions is).loops ↔ Encloses is k o c := by
  have h := (Matching.knows_readAll is).loops k o c
  refine h.trans ⟨fun h => h.2, fun h => ⟨lt_length_of_bracketAt h.closing, h⟩⟩

theorem partner?_eq_some_iff {l : Loop} {a b : ℕ} (hne : l.opening ≠ l.closing) :
    l.partner? a = some b ↔ l.opening = a ∧ l.closing = b ∨ l.closing = a ∧ l.opening = b := by
  obtain ⟨k, o, c⟩ := l
  simp only [Loop.partner?] at hne ⊢
  split_ifs with h₁ h₂
  · subst h₁
    simp [hne.symm]
  · subst h₂
    simp [hne]
  · simp [Ne.symm h₁, Ne.symm h₂]

/-- Both ends of a loop know the other end, and no address knows more. -/
theorem partner_unique {k k' : Loop.Kind} {a b b' : ℕ}
    (h : Encloses is k a b ∨ Encloses is k b a) (h' : Encloses is k' a b' ∨ Encloses is k' b' a) :
    b = b' := by
  cases h with
  | inl h =>
      cases h' with
      | inl h' => exact (h'.closing_unique h).2
      | inr h' => exact absurd h' h.opening_ne_closing
  | inr h =>
      cases h' with
      | inl h' => exact absurd h h'.opening_ne_closing
      | inr h' => exact (h'.opening_unique h).2

theorem partner?_of_mem {l : Loop} (hl : l ∈ (ofInstructions is).loops) {a b : ℕ} :
    l.partner? a = some b ↔ l.opening = a ∧ l.closing = b ∨ l.closing = a ∧ l.opening = b :=
  partner?_eq_some_iff (mem_loops_iff.1 hl).lt.ne

theorem encloses_of_target? {a b : ℕ} (h : (ofInstructions is).target? a = some b) :
    ∃ k, Encloses is k a b ∨ Encloses is k b a := by
  obtain ⟨⟨k, o, c⟩, hl, hp⟩ := List.exists_of_findSome?_eq_some h
  have he := mem_loops_iff.1 hl
  rcases (partner?_of_mem hl).1 hp with ⟨rfl, rfl⟩ | ⟨rfl, rfl⟩
  · exact ⟨k, .inl he⟩
  · exact ⟨k, .inr he⟩

/-- A bracket is sent to the other end of its loop. -/
theorem target?_eq_some_iff {a b : ℕ} :
    (ofInstructions is).target? a = some b ↔ ∃ k, Encloses is k a b ∨ Encloses is k b a := by
  refine ⟨encloses_of_target?, fun ⟨k, h⟩ => ?_⟩
  obtain ⟨l, hl, hp⟩ : ∃ l ∈ (ofInstructions is).loops, l.partner? a = some b := by
    cases h with
    | inl h =>
        have hl := mem_loops_iff.2 h
        exact ⟨_, hl, (partner?_of_mem hl).2 (.inl ⟨rfl, rfl⟩)⟩
    | inr h =>
        have hl := mem_loops_iff.2 h
        exact ⟨_, hl, (partner?_of_mem hl).2 (.inr ⟨rfl, rfl⟩)⟩
  have hsome : ((ofInstructions is).target? a).isSome := by
    unfold target?
    rw [List.findSome?_isSome_iff]
    exact ⟨l, hl, by simp [hp]⟩
  obtain ⟨b', hb'⟩ := Option.isSome_iff_exists.1 hsome
  obtain ⟨k', h'⟩ := encloses_of_target? hb'
  rw [hb', partner_unique h h']

theorem mem_jumps_iff {k : Loop.Kind} {a b : ℕ} :
    (a, b) ∈ (ofInstructions is).jumps k ↔ Encloses is k a b ∨ Encloses is k b a := by
  unfold jumps
  rw [(List.mergeSort_perm _ _).mem_iff, List.mem_flatMap]
  constructor
  · rintro ⟨⟨k', o, c⟩, hl, hp⟩
    obtain ⟨hl, hk⟩ := List.mem_filter.1 hl
    have he := mem_loops_iff.1 hl
    simp only [decide_eq_true_eq] at hk
    subst hk
    simp only [List.mem_cons, Prod.mk.injEq, List.not_mem_nil, or_false] at hp
    rcases hp with ⟨rfl, rfl⟩ | ⟨rfl, rfl⟩
    · exact .inl he
    · exact .inr he
  · rintro (h | h)
    · exact ⟨⟨k, a, b⟩, List.mem_filter.2 ⟨mem_loops_iff.2 h, by simp⟩, by simp⟩
    · exact ⟨⟨k, b, a⟩, List.mem_filter.2 ⟨mem_loops_iff.2 h, by simp⟩, by simp⟩

theorem keys_ne {l l' : Loop} (hl : l ∈ (ofInstructions is).loops)
    (hl' : l' ∈ (ofInstructions is).loops) (hne : l'.closing < l.closing) :
    ∀ p ∈ [(l.opening, l.closing), (l.closing, l.opening)],
      ∀ q ∈ [(l'.opening, l'.closing), (l'.closing, l'.opening)], p.1 ≠ q.1 := by
  have he := mem_loops_iff.1 hl
  have he' := mem_loops_iff.1 hl'
  simp only [List.forall_mem_cons, List.not_mem_nil, false_implies, implies_true, and_true]
  refine ⟨⟨fun h => ?_, fun h => ?_⟩, fun h => ?_, fun h => ?_⟩
  · rw [← h] at he'
    have := (he.closing_unique he').2
    omega
  · rw [← h] at he'
    exact he.opening_ne_closing he'
  · rw [← h] at he'
    exact he'.opening_ne_closing he
  · omega

theorem pairwise_mergeSort_key {α : Type} (key : α → ℕ) {l : List α}
    (h : l.Pairwise (fun a b => key a ≠ key b)) :
    (l.mergeSort (fun a b => key a ≤ key b)).Pairwise (fun a b => key a < key b) := by
  have hsorted : (l.mergeSort (fun a b => key a ≤ key b)).Pairwise
      (fun a b => decide (key a ≤ key b) = true) := by
    refine List.pairwise_mergeSort (fun a b c h₁ h₂ => ?_) (fun a b => ?_) l
    · simp only [decide_eq_true_eq] at h₁ h₂ ⊢
      omega
    · simp only [Bool.or_eq_true, decide_eq_true_eq]
      omega
  have hdistinct := ((List.mergeSort_perm l (fun a b => key a ≤ key b)).pairwise_iff
    (fun h => h.symm)).2 h
  refine (hsorted.and hdistinct).imp fun h => ?_
  exact lt_of_le_of_ne (of_decide_eq_true h.1) h.2

theorem jumps_pairwise (k : Loop.Kind) :
    ((ofInstructions is).jumps k).Pairwise (fun p q => p.1 < q.1) := by
  apply pairwise_mergeSort_key Prod.fst
  rw [List.pairwise_flatMap]
  constructor
  · rintro ⟨k', o, c⟩ hl
    have he := mem_loops_iff.1 (List.mem_of_mem_filter hl)
    simpa using he.lt.ne
  · have hord := (Matching.knows_readAll is).loops_ordered.filter (fun l => decide (l.kind = k))
    refine hord.imp_of_mem fun {l l'} hl hl' hne => ?_
    exact keys_ne (List.mem_of_mem_filter hl) (List.mem_of_mem_filter hl') hne

/-! ### Unmatched brackets -/

/-- An opening still waits at the end exactly if it ends nowhere. -/
theorem waits_iff {k : Loop.Kind} {o : ℕ} (ho : bracketAt is o = some (k, .opening)) :
    (∀ i, o < i → i ≤ is.length → height is k o < height is k i) ↔ ∀ c, ¬ Encloses is k o c := by
  constructor
  · intro h c he
    have hc := lt_length_of_bracketAt he.closing
    have := (encloses_iff_height.1 he).2.2.2.1
    have := h (c + 1) (by have := he.lt; omega) hc
    omega
  · intro h i hi _
    by_contra hlow
    obtain ⟨c, _, he⟩ := exists_encloses_of_low ho hi (by omega)
    exact h c he

theorem mem_unmatched_iff {a : ℕ} : a ∈ (ofInstructions is).unmatched ↔
    ∃ k s, bracketAt is a = some (k, s) ∧ ∀ b, ¬ (Encloses is k a b ∨ Encloses is k b a) := by
  have hk := Matching.knows_readAll is
  have hmem : a ∈ (ofInstructions is).unmatched ↔
      a ∈ (Matching.readAll {} 0 is).strays ∨
        ∃ p ∈ (Matching.readAll {} 0 is).pending, p.opening = a := by
    simp only [ofInstructions, (List.mergeSort_perm _ _).mem_iff, Matching.unmatched,
      List.mem_append, List.mem_map]
  rw [hmem]
  constructor
  · rintro (h | ⟨⟨k, o, d⟩, hp, rfl⟩)
    · obtain ⟨_, ⟨k, hb⟩, hno⟩ := (hk.strays a).1 h
      refine ⟨k, _, hb, fun b he => ?_⟩
      cases he with
      | inl he => simpa [hb] using he.opening
      | inr he => exact hno k b he
    · obtain ⟨_, hb, _, hw⟩ := (hk.pending k o d).1 hp
      refine ⟨k, _, hb, fun b he => ?_⟩
      cases he with
      | inl he => exact (waits_iff hb).1 hw b he
      | inr he => simpa [hb] using he.closing
  · rintro ⟨k, s, hb, hno⟩
    have hlt := lt_length_of_bracketAt hb
    cases s with
    | opening =>
        have hw := (waits_iff hb).2 fun c he => hno c (.inl he)
        exact .inr ⟨⟨k, a, _⟩, (hk.pending k a _).2 ⟨hlt, hb, rfl, hw⟩, rfl⟩
    | closing =>
        refine .inl ((hk.strays a).2 ⟨hlt, ⟨k, hb⟩, fun k' o he => ?_⟩)
        obtain rfl : k' = k := by
          have := hb.symm.trans he.closing
          simp_all
        exact hno o (.inr he)

theorem exists_partner {a : ℕ} {k : Loop.Kind} {s : Loop.Side}
    (ha : a ∉ (ofInstructions is).unmatched) (hb : bracketAt is a = some (k, s)) :
    ∃ b, Encloses is k a b ∨ Encloses is k b a := by
  by_contra hno
  exact ha (mem_unmatched_iff.2 ⟨k, s, hb, not_exists.1 hno⟩)

theorem unmatched_pairwise : (ofInstructions is).unmatched.Pairwise (· < ·) := by
  have hk := Matching.knows_readAll is
  apply pairwise_mergeSort_key (fun a => a)
  refine List.pairwise_append.2 ⟨hk.strays_ordered.imp fun h => ne_of_gt h, ?_, ?_⟩
  · rw [List.pairwise_map]
    exact hk.ordered.imp fun h => ne_of_lt h
  · rintro a ha b hb rfl
    obtain ⟨⟨k, o, d⟩, hp, rfl⟩ := List.mem_map.1 hb
    obtain ⟨_, ⟨k', hc⟩, _⟩ := (hk.strays _).1 ha
    have ho := ((hk.pending k o d).1 hp).2.1
    simp [ho] at hc

/-- An opening that ends nowhere keeps the height up, so a later closing ends some loop. -/
theorem not_lt_of_unmatched {k : Loop.Kind} {o c : ℕ} (ho : bracketAt is o = some (k, .opening))
    (hno : ∀ b, ¬ Encloses is k o b) (hc : bracketAt is c = some (k, .closing))
    (hnc : ∀ b, ¬ Encloses is k b c) : ¬ o < c := by
  intro hlt
  have hup := (waits_iff ho).2 hno (c + 1) (by omega) (lt_length_of_bracketAt hc)
  obtain ⟨b, he⟩ := exists_encloses_of_high hc hlt.le hup.le
  exact hnc b he

/-! ### The table -/

/-- **The table of a program is the matching of its brackets**, kind by kind. -/
theorem isMatching_ofInstructions (is : List Instruction) :
    (ofInstructions is).IsMatching is where
  mem_jumps k a b := mem_jumps_iff
  jumps_ascending := jumps_pairwise
  target a b := by
    simp only [target?_eq_some_iff, mem_jumps_iff]
    constructor
    · rintro ⟨k, h | h⟩
      · exact ⟨k, _, h.opening, .inl h⟩
      · exact ⟨k, _, h.closing, .inr h⟩
    · rintro ⟨k, _, _, h⟩
      exact ⟨k, h⟩
  jump_or_unmatched a k s hb := by
    simp only [mem_unmatched_iff, mem_jumps_iff, not_exists]
    constructor
    · rintro ⟨k', s', hb', h⟩
      obtain rfl : k = k' := by simp_all
      exact h
    · intro h
      exact ⟨k, s, hb, h⟩
  no_bracket a hb := by
    simp only [mem_unmatched_iff, mem_jumps_iff]
    refine ⟨fun ⟨k, s, hb', _⟩ => by simp [hb] at hb', fun k b h => ?_⟩
    cases h with
    | inl h => simpa [hb] using h.opening
    | inr h => simpa [hb] using h.closing
  unmatched_ascending := unmatched_pairwise
  closings_first k o c ho hbo hc hbc := by
    obtain ⟨k₁, s₁, hb₁, hno⟩ := mem_unmatched_iff.1 ho
    obtain ⟨k₂, s₂, hb₂, hnc⟩ := mem_unmatched_iff.1 hc
    obtain rfl : k = k₁ := by simp_all
    obtain rfl : k = k₂ := by simp_all
    exact not_lt_of_unmatched hbo (fun b h => hno b (.inl h)) hbc (fun b h => hnc b (.inr h))

end JumpTable

end TwinTape
