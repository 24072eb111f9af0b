import TwinTape.Memory.Action
import Mathlib.Order.Bounds.Basic
import Mathlib.Data.Int.Order.Basic
import Mathlib.Data.List.Induction

/-! # A tape without ends

A tape shows the part of an endless strip that its cursor has been on.  A `Strip` has a cell for
every integer, all of them zero at first, and a head that starts at zero.  A tape and a strip that
go through the same changes are always related as `Tape.Shows` says, where `lo` and `hi` are the
least and the greatest place the head has been on: the cells of the tape are those of the strip
from `lo` to `hi`, and the cursor is where the head is (`shows_strip`).

A move to the left of the first cell puts a new cell before all others, so every cell gets a new
index while the cursor stays at zero; on the strip nothing moves, and `lo` goes down by one. -/

namespace TwinTape

/-- What can be done to a tape. -/
inductive Tape.Change where
  | right
  | left
  | write (x : Float)

/-- A tape without ends, and the place of its head. -/
structure Strip where
  content : ℤ → Float
  head : ℤ

namespace Strip

/-- The strip that nothing has been done to. -/
def blank : Strip := ⟨fun _ => 0.0, 0⟩

/-- The strip after a change. -/
def apply (s : Strip) : Tape.Change → Strip
  | .right => { s with head := s.head + 1 }
  | .left => { s with head := s.head - 1 }
  | .write x => { s with content := Function.update s.content s.head x }

/-- The strip after changes that are made one after the other. -/
def afterAll (changes : List Tape.Change) : Strip := changes.foldl apply blank

/-- The places the head has been on, the first and the last included. -/
def visited (changes : List Tape.Change) : Set ℤ :=
  { p | ∃ earlier, earlier <+: changes ∧ (afterAll earlier).head = p }

theorem afterAll_append_singleton (changes : List Tape.Change) (c : Tape.Change) :
    afterAll (changes ++ [c]) = (afterAll changes).apply c := by
  simp [afterAll]

theorem visited_nil : visited [] = {0} := by
  ext p
  simp [visited, afterAll, blank, eq_comm]

theorem visited_append_singleton (changes : List Tape.Change) (c : Tape.Change) :
    visited (changes ++ [c]) = insert (afterAll (changes ++ [c])).head (visited changes) := by
  ext p
  simp only [visited, Set.mem_ofPred_eq, Set.mem_insert_iff, List.prefix_concat_iff]
  constructor
  · rintro ⟨earlier, rfl | hearlier, rfl⟩
    · exact .inl rfl
    · exact .inr ⟨earlier, hearlier, rfl⟩
  · rintro (rfl | ⟨earlier, hearlier, rfl⟩)
    · exact ⟨_, .inl rfl, rfl⟩
    · exact ⟨earlier, .inr hearlier, rfl⟩

end Strip

namespace Tape
variable {t : Tape} {s : Strip} {lo hi : ℤ}

/-- The tape after a change. -/
def apply (t : Tape) : Change → Tape
  | .right => t.right
  | .left => t.left
  | .write x => t.set x

/-- The tape after changes that are made one after the other. -/
def afterAll (changes : List Change) : Tape := changes.foldl apply {}

theorem afterAll_append_singleton (changes : List Change) (c : Change) :
    afterAll (changes ++ [c]) = (afterAll changes).apply c := by
  simp [afterAll]

/-- The tape shows the strip from `lo` to `hi`. -/
structure Shows (t : Tape) (s : Strip) (lo hi : ℤ) : Prop where
  size : (t.cells.length : ℤ) = hi - lo + 1
  cursor : (t.cursor : ℤ) = s.head - lo
  cells : ∀ i < t.cells.length, t.cells[i]? = some (s.content (lo + i))
  /-- What is not shown is zero. -/
  beyond : ∀ p, p < lo ∨ hi < p → s.content p = 0.0

theorem Shows.head_bounds (h : t.Shows s lo hi) : lo ≤ s.head ∧ s.head ≤ hi := by
  have hsize := h.size
  have hcursor := h.cursor
  have hlt := t.cursor_lt_size
  rw [← length_cells] at hlt
  omega

/-! ### One change -/

theorem Shows.right (h : t.Shows s lo hi) :
    t.right.Shows (s.apply .right) lo (max hi (s.head + 1)) := by
  have hsize := h.size
  have hcursor := h.cursor
  have hbounds := h.head_bounds
  have hlength := t.length_cells
  have hcells := t.cells_right
  have hnext : (t.right.cursor : ℤ) = s.head + 1 - lo := by
    rw [cursor_right]
    omega
  by_cases hend : t.cursor + 1 < t.size
  · rw [if_pos hend] at hcells
    have hmax : max hi (s.head + 1) = hi := by omega
    rw [hmax]
    refine ⟨?_, hnext, ?_, h.beyond⟩
    · rw [hcells]
      exact hsize
    · rw [hcells]
      exact h.cells
  · rw [if_neg hend] at hcells
    have hlt := t.cursor_lt_size
    have hmax : max hi (s.head + 1) = hi + 1 := by omega
    rw [hmax]
    refine ⟨?_, hnext, ?_, ?_⟩
    · rw [hcells, List.length_append, List.length_singleton]
      omega
    · intro i hi'
      rw [hcells, List.length_append, List.length_singleton] at hi'
      rw [hcells]
      by_cases hlast : i < t.cells.length
      · rw [List.getElem?_append_left hlast]
        exact h.cells i hlast
      · have hi_eq : i = t.cells.length := by omega
        have hnew : s.content (lo + i) = 0.0 := h.beyond _ (by omega)
        rw [hi_eq, List.getElem?_concat_length, ← hi_eq]
        exact congrArg some hnew.symm
    · intro p hp
      exact h.beyond p (by omega)

theorem Shows.left (h : t.Shows s lo hi) :
    t.left.Shows (s.apply .left) (min lo (s.head - 1)) hi := by
  have hsize := h.size
  have hcursor := h.cursor
  have hbounds := h.head_bounds
  have hcells := t.cells_left
  by_cases hend : t.cursor = 0
  · rw [if_pos hend] at hcells
    have hmin : min lo (s.head - 1) = lo - 1 := by omega
    rw [hmin]
    refine ⟨?_, ?_, ?_, ?_⟩
    · rw [hcells, List.length_cons]
      omega
    · rw [cursor_left]
      show ((t.cursor - 1 : ℕ) : ℤ) = s.head - 1 - (lo - 1)
      omega
    · intro i hi'
      rw [hcells, List.length_cons] at hi'
      rw [hcells]
      cases i with
      | zero =>
          have hplace : lo - 1 + ((0 : ℕ) : ℤ) = lo - 1 := by omega
          have hnew : s.content (lo - 1) = 0.0 := h.beyond _ (by omega)
          rw [List.getElem?_cons_zero, hplace]
          exact congrArg some hnew.symm
      | succ i =>
          have hplace : lo - 1 + ((i + 1 : ℕ) : ℤ) = lo + i := by omega
          rw [List.getElem?_cons_succ, hplace]
          exact h.cells i (by omega)
    · intro p hp
      exact h.beyond p (by omega)
  · rw [if_neg hend] at hcells
    have hmin : min lo (s.head - 1) = lo := by omega
    rw [hmin]
    refine ⟨?_, ?_, ?_, h.beyond⟩
    · rw [hcells]
      exact hsize
    · rw [cursor_left]
      show ((t.cursor - 1 : ℕ) : ℤ) = s.head - 1 - lo
      omega
    · rw [hcells]
      exact h.cells

theorem Shows.write (h : t.Shows s lo hi) (x : Float) :
    (t.set x).Shows (s.apply (.write x)) lo hi := by
  have hcursor := h.cursor
  have hbounds := h.head_bounds
  have hcells := t.cells_set x
  refine ⟨?_, hcursor, ?_, ?_⟩
  · rw [hcells, List.length_set]
    exact h.size
  · intro i hi'
    rw [hcells, List.length_set] at hi'
    rw [hcells, List.getElem?_set]
    show _ = some (Function.update s.content s.head x (lo + i))
    by_cases hat : t.cursor = i
    · have hplace : lo + (i : ℤ) = s.head := by omega
      rw [if_pos hat, if_pos (by omega), hplace, Function.update_self]
    · have hplace : lo + (i : ℤ) ≠ s.head := by omega
      rw [if_neg hat, Function.update_of_ne hplace]
      exact h.cells i hi'
  · intro p hp
    show Function.update s.content s.head x p = 0.0
    rw [Function.update_of_ne (by omega)]
    exact h.beyond p hp

/-- A change makes the part that is shown reach to the new place of the head. -/
theorem Shows.apply (h : t.Shows s lo hi) (c : Change) :
    (t.apply c).Shows (s.apply c) (min (s.apply c).head lo) (max (s.apply c).head hi) := by
  have hbounds := h.head_bounds
  cases c with
  | right =>
      have hmin : min (s.apply .right).head lo = lo := min_eq_right (by show lo ≤ s.head + 1; omega)
      rw [hmin, max_comm]
      exact h.right
  | left =>
      have hmax : max (s.apply .left).head hi = hi := max_eq_right (by show s.head - 1 ≤ hi; omega)
      rw [hmax, min_comm]
      exact h.left
  | write x =>
      have hmin : min (s.apply (.write x)).head lo = lo := min_eq_right hbounds.1
      have hmax : max (s.apply (.write x)).head hi = hi := max_eq_right hbounds.2
      rw [hmin, hmax]
      exact h.write x

/-! ### All changes -/

/-- A tape shows the places the head has been on, from the least to the greatest. -/
theorem exists_shows (changes : List Change) :
    ∃ lo hi, IsLeast (Strip.visited changes) lo ∧ IsGreatest (Strip.visited changes) hi ∧
      (afterAll changes).Shows (Strip.afterAll changes) lo hi := by
  induction changes using List.reverseRecOn with
  | nil =>
      refine ⟨0, 0, ?_, ?_, ⟨rfl, rfl, ?_, fun _ _ => rfl⟩⟩
      · rw [Strip.visited_nil]
        exact isLeast_singleton
      · rw [Strip.visited_nil]
        exact isGreatest_singleton
      · intro i hi
        obtain rfl : i = 0 := by
          have : i < 1 := hi
          omega
        rfl
  | append_singleton changes c ih =>
      obtain ⟨lo, hi, hlo, hhi, h⟩ := ih
      rw [Strip.visited_append_singleton, afterAll_append_singleton,
        Strip.afterAll_append_singleton]
      exact ⟨_, _, hlo.insert _, hhi.insert _, h.apply c⟩

/-- **A tape is a strip without ends, as far as the head has been.**  After any changes the cells
are those from the least to the greatest place visited, and the cursor is at the head; a move to the
left falls off the tape just if it takes the head to a place below all that were visited. -/
theorem shows_strip (changes : List Change) :
    ∃ lo hi, IsLeast (Strip.visited changes) lo ∧ IsGreatest (Strip.visited changes) hi ∧
      (afterAll changes).Shows (Strip.afterAll changes) lo hi ∧
      ((afterAll changes).fallsLeft .moveLeft = true ↔
        ∀ p ∈ Strip.visited changes, (Strip.afterAll (changes ++ [.left])).head < p) := by
  obtain ⟨lo, hi, hlo, hhi, h⟩ := exists_shows changes
  refine ⟨lo, hi, hlo, hhi, h, ?_⟩
  have hcursor := h.cursor
  have hfalls : (afterAll changes).fallsLeft .moveLeft = (afterAll changes).isLeftmost := rfl
  rw [hfalls, isLeftmost_iff, Strip.afterAll_append_singleton]
  show _ ↔ ∀ p ∈ Strip.visited changes, (Strip.afterAll changes).head - 1 < p
  constructor
  · intro hzero p hp
    have hle := hlo.2 hp
    omega
  · intro hbelow
    have hlt := hbelow lo hlo.1
    have hbounds := h.head_bounds
    omega

end Tape
end TwinTape
