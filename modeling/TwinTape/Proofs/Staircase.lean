import TwinTape.Proofs.Matching

/-! # The imbalances form a staircase

The pass over the brackets keeps one list of waiting openings for all kinds and looks for an
imbalance of zero without looking at kinds.  That this is right is seen on the list alone: the
imbalances of the entries of one kind are `n, n - 1, …, 1` in the order of the list
(`Matching.Descends`).

* An opening raises the stairs of its kind by one and adds the lowest stair, and leaves the stairs
  of the other kinds (`Descends.readOpening`).
* A closing lowers the stairs of its kind by one.  Now the lowest one is at zero and no other entry
  is, of whatever kind (`Descends.zero_split`), so the search finds it, and what is left are
  stairs again (`Descends.readClosing`).

The theorem is `Matching.pending_staircase`. -/

namespace TwinTape

/-! ### Stairs -/

/-- The integers from `n` down to one. -/
def countdown : ℕ → List ℤ
  | 0 => []
  | n + 1 => (n + 1 : ℤ) :: countdown n

@[simp] theorem length_countdown (n : ℕ) : (countdown n).length = n := by
  induction n with
  | zero => rfl
  | succ n ih => simp [countdown, ih]

theorem countdown_raise (n : ℕ) : countdown (n + 1) = (countdown n).map (· + 1) ++ [1] := by
  induction n with
  | zero => rfl
  | succ n ih =>
      have hrest : countdown (n + 1 + 1) = ((n + 1 : ℕ) + 1 : ℤ) :: countdown (n + 1) := rfl
      rw [hrest]
      nth_rewrite 1 [ih]
      simp [countdown]

theorem pos_of_mem_countdown {n : ℕ} {d : ℤ} (h : d ∈ countdown n) : 0 < d := by
  induction n with
  | zero => simp [countdown] at h
  | succ n ih =>
      rcases List.mem_cons.1 h with rfl | h
      · omega
      · exact ih h

namespace Matching

/-- The waiting entries of a kind. -/
def waiting (m : Matching) (k : Loop.Kind) : List Pending := m.pending.filter (·.kind = k)

/-- The waiting entries when a closing bracket of the kind `k` has been counted, and before one of
them is resolved. -/
def counted (m : Matching) (k : Loop.Kind) : List Pending := m.pending.map (Pending.shift k (-1))

/-- The imbalances of the entries of a kind, in order. -/
def stairs (ps : List Pending) (k : Loop.Kind) : List ℤ :=
  (ps.filter (·.kind = k)).map (·.imbalance)

/-- The imbalances of each kind count down to one. -/
def Descends (ps : List Pending) : Prop := ∀ k, stairs ps k = countdown (stairs ps k).length

variable {ps : List Pending} {m : Matching} {k : Loop.Kind}

/-! ### Brackets that are counted -/

theorem kind_shift (k : Loop.Kind) (change : ℤ) (p : Pending) :
    (p.shift k change).kind = p.kind := by
  unfold Pending.shift
  split <;> rfl

theorem imbalance_shift_same {p : Pending} (hp : p.kind = k) (change : ℤ) :
    (p.shift k change).imbalance = p.imbalance + change := by
  simp [Pending.shift, hp]

theorem shift_ne {p : Pending} (hp : p.kind ≠ k) (change : ℤ) : p.shift k change = p := by
  simp [Pending.shift, hp]

theorem stairs_append (ps qs : List Pending) (k : Loop.Kind) :
    stairs (ps ++ qs) k = stairs ps k ++ stairs qs k := by
  simp [stairs]

theorem stairs_cons_same {p : Pending} (hp : p.kind = k) (ps : List Pending) :
    stairs (p :: ps) k = p.imbalance :: stairs ps k := by
  simp [stairs, hp]

theorem stairs_cons_ne {p : Pending} (hp : p.kind ≠ k) (ps : List Pending) :
    stairs (p :: ps) k = stairs ps k := by
  simp [stairs, hp]

theorem stairs_eq_nil (h : ∀ p ∈ ps, p.kind ≠ k) : stairs ps k = [] := by
  simpa [stairs] using h

theorem stairs_shift_same (ps : List Pending) (k : Loop.Kind) (change : ℤ) :
    stairs (ps.map (Pending.shift k change)) k = (stairs ps k).map (· + change) := by
  induction ps with
  | nil => rfl
  | cons p ps ih =>
      rw [List.map_cons]
      by_cases hp : p.kind = k
      · rw [stairs_cons_same ((kind_shift k change p).trans hp), stairs_cons_same hp, ih,
          imbalance_shift_same hp, List.map_cons]
      · rw [shift_ne hp, stairs_cons_ne hp, stairs_cons_ne hp, ih]

theorem stairs_shift_ne (ps : List Pending) {k k' : Loop.Kind} (hk : k' ≠ k) (change : ℤ) :
    stairs (ps.map (Pending.shift k change)) k' = stairs ps k' := by
  induction ps with
  | nil => rfl
  | cons p ps ih =>
      rw [List.map_cons]
      by_cases hp : p.kind = k'
      · rw [shift_ne (by rw [hp]; exact hk), stairs_cons_same hp, stairs_cons_same hp, ih]
      · rw [stairs_cons_ne (by rw [kind_shift]; exact hp), stairs_cons_ne hp, ih]

theorem Descends.pos (h : Descends ps) {p : Pending} (hp : p ∈ ps) : 0 < p.imbalance := by
  apply pos_of_mem_countdown
  rw [← h p.kind]
  exact List.mem_map_of_mem (List.mem_filter.2 ⟨hp, by simp⟩)

theorem Descends.not_zero (h : Descends ps) : ∀ p ∈ ps, ¬ (p.imbalance == 0) = true := by
  intro p hp
  have := h.pos hp
  simp only [beq_iff_eq]
  omega

/-! ### An opening bracket -/

theorem Descends.readOpening (h : Descends m.pending) (k : Loop.Kind) (address : ℕ) :
    Descends (m.readOpening k address).pending := by
  intro k'
  simp only [Matching.readOpening]
  by_cases hk : k' = k
  · subst hk
    have hlast : stairs [⟨k', address, 0⟩] k' = [0] := stairs_cons_same rfl []
    rw [stairs_shift_same, stairs_append, hlast, h k']
    simp [countdown_raise]
  · have hlast : stairs [⟨k, address, 0⟩] k' = [] := stairs_cons_ne (Ne.symm hk) []
    rw [stairs_shift_ne _ hk, stairs_append, hlast, List.append_nil]
    exact h k'

/-! ### A closing bracket -/

/-- The latest entry of a kind is on the lowest stair, and the others of its kind stand before it
on the higher ones. -/
theorem Descends.exists_split (h : Descends ps) (hk : ps.filter (·.kind = k) ≠ []) :
    ∃ front p back, ps = front ++ p :: back ∧ (ps.filter (·.kind = k)).getLast? = some p ∧
      p.kind = k ∧ p.imbalance = 1 ∧ (∀ q ∈ back, q.kind ≠ k) ∧
      stairs front k = (countdown (stairs front k).length).map (· + 1) := by
  obtain ⟨before, p, hlast⟩ : ∃ before p, ps.filter (·.kind = k) = before ++ [p] :=
    ⟨_, _, (List.dropLast_concat_getLast hk).symm⟩
  obtain ⟨first, rest, rfl, hfirst, hrest⟩ := List.filter_eq_append_iff.1 hlast
  obtain ⟨skipped, back, rfl, hskipped, hp, hback⟩ := List.filter_eq_cons_iff.1 hrest
  have hp : p.kind = k := by simpa using hp
  have hback : ∀ q ∈ back, q.kind ≠ k := by simpa using hback
  have hstairs := h k
  have hsplit : stairs (first ++ (skipped ++ p :: back)) k =
      stairs (first ++ skipped) k ++ [p.imbalance] := by
    rw [← List.append_assoc, stairs_append, stairs_cons_same hp, stairs_eq_nil hback]
  rw [hsplit, List.length_append, List.length_singleton, countdown_raise] at hstairs
  obtain ⟨habove, hlow⟩ := List.append_inj' hstairs rfl
  exact ⟨first ++ skipped, p, back, by simp, by simp [hlast], hp, by simpa using hlow, hback,
    habove⟩

/-- After the closing bracket has counted, the latest entry of its kind is the only one at zero,
and the others are stairs. -/
theorem Descends.zero_split (h : Descends ps) (hk : ps.filter (·.kind = k) ≠ []) :
    ∃ front p back, ps.map (Pending.shift k (-1)) = front ++ p :: back ∧
      (ps.filter (·.kind = k)).getLast?.map (Pending.shift k (-1)) = some p ∧
      p.kind = k ∧ p.imbalance = 0 ∧ Descends (front ++ back) := by
  obtain ⟨front, p, back, rfl, hlast, hp, hlow, hback, habove⟩ := h.exists_split hk
  refine ⟨front.map (Pending.shift k (-1)), p.shift k (-1), back.map (Pending.shift k (-1)),
    by simp, by rw [hlast]; rfl, by rw [kind_shift, hp], ?_, ?_⟩
  · rw [imbalance_shift_same hp, hlow]
    rfl
  rw [← List.map_append]
  intro k'
  by_cases hk' : k' = k
  · subst hk'
    rw [stairs_shift_same, stairs_append, stairs_eq_nil hback, List.append_nil, habove,
      List.map_map]
    simp [Function.comp_def]
  · have hp' : p.kind ≠ k' := by
      rw [hp]
      exact Ne.symm hk'
    have hother : stairs (front ++ back) k' = stairs (front ++ p :: back) k' := by
      rw [stairs_append, stairs_append, stairs_cons_ne hp']
    rw [stairs_shift_ne _ hk', hother]
    exact h k'

theorem Descends.shift_of_nil (hk : ps.filter (·.kind = k) = []) :
    ps.map (Pending.shift k (-1)) = ps := by
  have hne : ∀ q ∈ ps, q.kind ≠ k := by simpa using hk
  exact (List.map_congr_left fun q hq => shift_ne (hne q hq) (-1)).trans (List.map_id' ps)

theorem Descends.find?_of_nil (h : Descends ps) (hk : ps.filter (·.kind = k) = []) :
    (ps.map (Pending.shift k (-1))).find? (·.imbalance == 0) = none := by
  rw [shift_of_nil hk, List.find?_eq_none]
  exact h.not_zero

/-- The search finds the latest entry of the kind of the bracket. -/
theorem Descends.find?_eq (h : Descends ps) (k : Loop.Kind) :
    (ps.map (Pending.shift k (-1))).find? (·.imbalance == 0) =
      (ps.filter (·.kind = k)).getLast?.map (Pending.shift k (-1)) := by
  by_cases hk : ps.filter (·.kind = k) = []
  · rw [h.find?_of_nil hk, hk]
    rfl
  · obtain ⟨front, p, back, hsplit, hlast, _, hzero, hrest⟩ := h.zero_split hk
    have hnone : front.find? (·.imbalance == 0) = none :=
      List.find?_eq_none.2 (List.forall_mem_append.1 hrest.not_zero).1
    rw [hlast, hsplit, List.find?_append, hnone]
    simp [hzero]

theorem Descends.readClosing (h : Descends m.pending) (k : Loop.Kind) (address : ℕ) :
    Descends (m.readClosing k address).pending := by
  by_cases hk : m.pending.filter (·.kind = k) = []
  · have hread : (m.readClosing k address).pending = m.pending := by
      simp only [Matching.readClosing, h.find?_of_nil hk]
      exact shift_of_nil hk
    rw [hread]
    exact h
  · obtain ⟨front, p, back, hsplit, hlast, _, hzero, hrest⟩ := h.zero_split hk
    have hread : (m.readClosing k address).pending = front ++ back := by
      simp only [Matching.readClosing, h.find?_eq, hlast]
      rw [hsplit, List.eraseP_append_right _ (List.forall_mem_append.1 hrest.not_zero).1,
        List.eraseP_cons_of_pos (by simp [hzero])]
    rw [hread]
    exact hrest

/-! ### The pass -/

theorem Descends.read (h : Descends m.pending) (address : ℕ) (i : Instruction) :
    Descends (m.read address i).pending := by
  unfold Matching.read
  rcases i.bracket? with _ | ⟨k, _ | _⟩
  · exact h
  · exact h.readOpening k address
  · exact h.readClosing k address

theorem Descends.readAll (h : Descends m.pending) (address : ℕ) (is : List Instruction) :
    Descends (m.readAll address is).pending := by
  induction is generalizing m address with
  | nil => exact h
  | cons i is ih => exact ih (h.read address i) (address + 1)

/-- The waiting entries stand in the order of their addresses, and those of one kind are stairs. -/
structure Staircase (m : Matching) : Prop where
  ascending : m.pending.Pairwise (·.opening < ·.opening)
  imbalances : ∀ k, (m.waiting k).map (·.imbalance) = countdown (m.waiting k).length

theorem Descends.staircase (h : Descends m.pending) (ho : Ordered m.pending) : m.Staircase := by
  refine ⟨ho, fun k => ?_⟩
  have hk := h k
  rw [stairs, List.length_map] at hk
  exact hk

theorem Staircase.descends (h : m.Staircase) : Descends m.pending := by
  intro k
  rw [stairs, List.length_map]
  exact h.imbalances k

/-- The closing bracket of kind `k` at `address` resolves the latest entry of its kind. -/
structure ResolvesLatest (m : Matching) (k : Loop.Kind) (address : ℕ) : Prop where
  /-- One entry at most, of whatever kind, is at zero. -/
  unique : (m.counted k).countP (·.imbalance == 0) ≤ 1
  /-- It is of the kind of the bracket, and no entry of this kind was opened after it. -/
  latest : ∀ p ∈ m.counted k, p.imbalance = 0 →
    p.kind = k ∧ ∀ q ∈ m.waiting k, q.opening ≤ p.opening
  /-- There is one if and only if an entry of the kind waits. -/
  exists_iff : (∃ p ∈ m.counted k, p.imbalance = 0) ↔ ∃ q ∈ m.pending, q.kind = k
  /-- So the search for zero finds the last entry of the kind, if there is any entry of it. -/
  search : (m.counted k).find? (·.imbalance == 0) =
    (m.waiting k).getLast?.map (Pending.shift k (-1))
  /-- The loop that is found is of the kind of the bracket. -/
  loops : (m.readClosing k address).loops =
    ((m.waiting k).getLast?.map fun q => ⟨k, q.opening, address⟩).toList ++ m.loops
  /-- Without an entry of the kind the bracket has no partner. -/
  strays : (m.readClosing k address).strays =
    if m.waiting k = [] then address :: m.strays else m.strays

theorem Staircase.resolvesLatest_of_nil (h : m.Staircase) (hk : m.waiting k = [])
    (address : ℕ) : m.ResolvesLatest k address := by
  have hstairs := h.descends
  have hsame : m.counted k = m.pending := Descends.shift_of_nil hk
  have hnone : ∀ p ∈ m.counted k, ¬ p.imbalance = 0 := by
    rw [hsame]
    simpa using hstairs.not_zero
  have hno : ∀ q ∈ m.pending, ¬ q.kind = k := by simpa [waiting] using hk
  have hfind := hstairs.find?_of_nil hk
  refine ⟨?_, fun p hp hzero => absurd hzero (hnone p hp), ?_, hstairs.find?_eq k, ?_, ?_⟩
  · rw [List.countP_eq_zero.2 (by simpa using hnone)]
    omega
  · constructor
    · rintro ⟨p, hp, hzero⟩
      exact absurd hzero (hnone p hp)
    · rintro ⟨q, hq, hkind⟩
      exact absurd hkind (hno q hq)
  · simp only [Matching.readClosing, hfind, hk]
    rfl
  · simp only [Matching.readClosing, hfind, hk, if_true]

theorem Staircase.resolvesLatest_of_ne_nil (h : m.Staircase) (hk : m.waiting k ≠ [])
    (address : ℕ) : m.ResolvesLatest k address := by
  have hstairs := h.descends
  obtain ⟨front, p, back, hsplit, hlast, hp, hzero, hrest⟩ := hstairs.zero_split hk
  obtain ⟨q, hq, hqp⟩ := Option.map_eq_some_iff.1 hlast
  have hne : ∀ x ∈ front ++ back, ¬ x.imbalance = 0 := by simpa using hrest.not_zero
  have hcounted : m.counted k = front ++ p :: back := hsplit
  have hopening : p.opening = q.opening := by rw [← hqp, opening_shift]
  have hgreatest : ∀ x ∈ m.waiting k, x.opening ≤ q.opening := by
    obtain ⟨before, hbefore⟩ := List.getLast?_eq_some_iff.1 hq
    have hasc : (m.waiting k).Pairwise (·.opening < ·.opening) := h.ascending.filter _
    intro x hx
    have hbefore : m.waiting k = before ++ [q] := hbefore
    rw [hbefore] at hx hasc
    rcases List.mem_append.1 hx with hx | hx
    · exact ((List.pairwise_append.1 hasc).2.2 x hx q (by simp)).le
    · rw [List.mem_singleton.1 hx]
  have hsearch := hstairs.find?_eq k
  refine ⟨?_, ?_, ?_, hsearch, ?_, ?_⟩
  · have hnone := List.countP_eq_zero.2 hrest.not_zero
    rw [List.countP_append] at hnone
    rw [hcounted, List.countP_append, List.countP_cons_of_pos (by simp [hzero])]
    omega
  · intro x hx hxzero
    have hxp : x = p := by
      rw [hcounted] at hx
      rcases List.mem_append.1 hx with hx | hx
      · exact absurd hxzero (hne x (List.mem_append_left back hx))
      · rcases List.mem_cons.1 hx with rfl | hx
        · rfl
        · exact absurd hxzero (hne x (List.mem_append_right front hx))
    subst hxp
    exact ⟨hp, fun y hy => by rw [hopening]; exact hgreatest y hy⟩
  · refine iff_of_true ⟨p, by simp [hcounted], hzero⟩ ?_
    obtain ⟨y, hy⟩ := List.exists_mem_of_ne_nil _ hk
    exact ⟨y, (List.mem_filter.1 hy).1, by simpa using (List.mem_filter.1 hy).2⟩
  · have hq : (m.waiting k).getLast? = some q := hq
    simp only [Matching.readClosing, hsearch, hlast, hq]
    simp [hp, hopening]
  · simp only [Matching.readClosing, hsearch, hlast, if_neg hk]

/-- **The imbalances form a staircase.**  After any part of a program has been read, the waiting
entries stand in ascending order and the imbalances of each kind count down to one.  So a closing
bracket brings at most one entry of all kinds down to zero, the latest one of its own kind, and
the search for zero resolves no entry of another kind. -/
theorem pending_staircase (is : List Instruction) (n : ℕ) :
    (readAll {} 0 (is.take n)).Staircase ∧
      ∀ k, bracketAt is n = some (k, .closing) →
        (readAll {} 0 (is.take n)).ResolvesLatest k n := by
  have hstart : Descends ({} : Matching).pending := fun k => rfl
  have h : (readAll {} 0 (is.take n)).Staircase :=
    (hstart.readAll 0 (is.take n)).staircase (knows_readAll (is.take n)).ordered
  refine ⟨h, fun k _ => ?_⟩
  by_cases hk : (readAll {} 0 (is.take n)).waiting k = []
  · exact h.resolvesLatest_of_nil hk n
  · exact h.resolvesLatest_of_ne_nil hk n

/-- Two loops in one memory, the outer of which crosses a loop in the other memory. -/
def crossing : List Instruction :=
  [.perform .global (.opening .testFirst), .perform .local (.opening .testFirst),
    .perform .global (.opening .testFirst), .perform .global (.closing .testFirst),
    .perform .global (.closing .testFirst), .perform .local (.closing .testFirst)]

/-- The first closing bracket finds two entries on the lowest stair, and resolves that of its
kind. -/
theorem pending_staircase_crossing :
    (readAll {} 0 (crossing.take 3)).pending =
        [⟨⟨.testFirst, .global⟩, 0, 2⟩, ⟨⟨.testFirst, .local⟩, 1, 1⟩,
          ⟨⟨.testFirst, .global⟩, 2, 1⟩] ∧
      (readAll {} 0 (crossing.take 3)).Staircase ∧
      (readAll {} 0 (crossing.take 3)).ResolvesLatest ⟨.testFirst, .global⟩ 3 := by
  obtain ⟨hstairs, hclosing⟩ := pending_staircase crossing 3
  exact ⟨rfl, hstairs, hclosing _ rfl⟩

end Matching

end TwinTape
