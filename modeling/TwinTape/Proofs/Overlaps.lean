import TwinTape.Token.Rule
import Mathlib.Data.List.Basic

/-! # Rules that match the same text

The lexer takes the first rule that matches, and there is hardly ever a choice.  A text that a rule
matches begins, after a scope mark and a count, with one of the `heads` of the rule; and no head
begins a head of another rule, but that the bracket of one character begins the bracket of two
(`eq_or_brackets_of_heads`).  So these two rules are the only ones that match the same text
(`both_match_iff`).

A rule that matches is therefore the first to match in any order of the rules, unless the text
begins with the bracket of two characters (`firstMatch_of_not_beginsLong`); there the order of the
two brackets decides (`firstMatch_of_beginsLong`). -/

namespace TwinTape.Rule
variable {r r' : Rule} {rules : List Rule} {text : List Char} {n : Nat}

/-! ### What a command begins with -/

/-- The ways to write the command of a rule. -/
def spellings : Rule → List (List Char)
  | command _ _ first second =>
    if second = [] then [[first]] else second.map fun d => [first, d]
  | _ => []

theorem exists_spelling_of_commandLength? {marked counted : Bool} {first : Char}
    {second text : List Char} {n : Nat} (h : commandLength? first second text = some n) :
    text.take n ∈ (command marked counted first second).spellings := by
  unfold commandLength? at h
  split at h
  · simp at h
  · split at h
    · simp at h
    · rename_i hc
      split at h
      · rename_i hs
        cases h
        simp_all [spellings]
      · rename_i hs
        split at h
        · split at h
          · cases h
            simp_all [spellings]
          · simp at h
        · simp at h

/-- Characters that begin no command. -/
def inert : List Char := ['\x27', '|', ':', '"', ' ', '\t', '\x0b', '\x0c']

theorem first_notMem_inert {marked counted : Bool} {first : Char} {second : List Char}
    (hr : command marked counted first second ∈ grammar) :
    first ∉ inert ∧ (counted = true → marked = true ∧ second = []) := by
  have h : ∀ r ∈ grammar, (match r with
      | command marked counted first second =>
        decide (first ∉ inert ∧ (counted = true → marked = true ∧ second = []))
      | _ => true) = true := by decide
  exact of_decide_eq_true (h _ hr)

theorem commandLength?_of_inert {marked counted : Bool} {first x : Char} {second : List Char}
    (hr : command marked counted first second ∈ grammar) (hx : x ∈ inert) (t : List Char) :
    commandLength? first second (x :: t) = none := by
  have hne : x ≠ first := by
    rintro rfl
    exact (first_notMem_inert hr).1 hx
  simp [commandLength?, hne]

theorem markLength_of_ne {x : Char} (hx : x ≠ '\x27') (t : List Char) :
    markLength (x :: t) = 0 := by
  simp [markLength, hx]

theorem countLength_of_ne {x : Char} (hx : x ≠ '|') (t : List Char) :
    countLength (x :: t) = 0 := by
  simp [countLength, hx]

theorem exists_cons_of_markLength (h : markLength text ≠ 0) : ∃ t, text = '\x27' :: t := by
  unfold markLength at h
  split at h
  · exact ⟨_, rfl⟩
  · exact absurd rfl h

theorem exists_cons_of_countLength (h : countLength text ≠ 0) : ∃ t, text = '|' :: t := by
  unfold countLength at h
  split at h
  · exact ⟨_, rfl⟩
  · exact absurd rfl h

/-! ### What a match begins with -/

/-- The text without a scope mark and a count at its start. -/
def bare (text : List Char) : List Char :=
  (text.drop (markLength text)).drop (countLength (text.drop (markLength text)))

theorem bare_of_ne {x : Char} (hmark : x ≠ '\x27') (hbar : x ≠ '|') (t : List Char) :
    bare (x :: t) = x :: t := by
  simp [bare, markLength_of_ne hmark, countLength_of_ne hbar]

/-- What the bare text can begin with if the rule matches. -/
def heads : Rule → List (List Char)
  | command marked counted first second => (command marked counted first second).spellings
  | terminator => [[':']]
  | comment => [['"']]
  | blanks => [[' '], ['\t'], ['\x0b'], ['\x0c']]

theorem no_mark_of_commandLength? {marked counted : Bool} {first : Char} {second : List Char}
    (hr : command marked counted first second ∈ grammar)
    (h : commandLength? first second text = some n) :
    markLength text = 0 ∧ countLength text = 0 := by
  constructor
  · by_contra hmark
    obtain ⟨t, rfl⟩ := exists_cons_of_markLength hmark
    rw [commandLength?_of_inert hr (by decide)] at h
    contradiction
  · by_contra hcount
    obtain ⟨t, rfl⟩ := exists_cons_of_countLength hcount
    rw [commandLength?_of_inert hr (by decide)] at h
    contradiction

theorem bare_of_length? {marked counted : Bool} {first : Char} {second : List Char}
    (hr : command marked counted first second ∈ grammar)
    (h : (command marked counted first second).length? text = some n) :
    ∃ k, commandLength? first second (bare text) = some k := by
  obtain ⟨k, hk, _⟩ := Option.map_eq_some_iff.1 h
  refine ⟨k, ?_⟩
  cases counted with
  | true =>
      obtain ⟨rfl, _⟩ := (first_notMem_inert hr).2 rfl
      rw [bare, List.drop_drop]
      exact hk
  | false =>
      obtain ⟨hmark, hcount⟩ := no_mark_of_commandLength? hr hk
      cases marked with
      | true =>
          simp only [if_true, Bool.false_eq_true, if_false, Nat.add_zero] at hk hcount
          rw [bare, hcount, List.drop_zero]
          exact hk
      | false =>
          simp only [Bool.false_eq_true, if_false, Nat.add_zero, List.drop_zero] at hk hmark hcount
          rw [bare, hmark, List.drop_zero, hcount, List.drop_zero]
          exact hk

theorem exists_head_of_cons {x : Char} (hx : [x] ∈ r.heads) (hmark : x ≠ '\x27') (hbar : x ≠ '|')
    (t : List Char) : ∃ sp ∈ r.heads, sp <+: bare (x :: t) := by
  refine ⟨[x], hx, ?_⟩
  rw [bare_of_ne hmark hbar]
  exact ⟨t, rfl⟩

theorem isBlank_iff {x : Char} : isBlank x = true ↔ x ∈ [' ', '\t', '\x0b', '\x0c'] := by
  simp [isBlank, or_assoc]

theorem exists_head_of_length? (hr : r ∈ grammar) (h : r.length? text = some n) :
    ∃ sp ∈ r.heads, sp <+: bare text := by
  cases r with
  | command marked counted first second =>
      obtain ⟨k, hk⟩ := bare_of_length? hr h
      exact ⟨_, @exists_spelling_of_commandLength? marked counted _ _ _ _ hk, List.take_prefix k _⟩
  | terminator =>
      unfold length? at h
      split at h
      all_goals first
        | contradiction
        | exact exists_head_of_cons (by simp [heads]) (by decide) (by decide) _
  | comment =>
      unfold length? at h
      split at h
      all_goals first
        | contradiction
        | exact exists_head_of_cons (by simp [heads]) (by decide) (by decide) _
  | blanks =>
      cases text with
      | nil => simp [length?] at h
      | cons c t =>
          have hc : isBlank c = true := by
            by_contra hc
            simp [length?, hc] at h
          have hblank := isBlank_iff.1 hc
          refine exists_head_of_cons ?_ ?_ ?_ t
          · simpa [heads] using hblank
          · rintro rfl
            exact absurd hblank (by decide)
          · rintro rfl
            exact absurd hblank (by decide)

/-! ### Which rules match the same text -/

/-- The bracket of two characters. -/
def longBracket : Rule := command true false '[' ['@']

/-- The bracket of one character. -/
def shortBracket : Rule := command true false '[' []

/-- The text begins with the bracket of two characters, with or without a scope mark. -/
def BeginsLong (text : List Char) : Prop :=
  ['[', '@'] <+: text ∨ ['\x27', '[', '@'] <+: text

/-- A head of a rule begins no head of another rule, but for the brackets. -/
theorem eq_or_brackets_of_heads {sp sp' : List Char} (hr : r ∈ grammar) (hr' : r' ∈ grammar)
    (hsp : sp ∈ r.heads) (hsp' : sp' ∈ r'.heads) (hle : sp <+: sp') :
    r = r' ∨ r = shortBracket ∧ r' = longBracket := by
  have h : ∀ r ∈ grammar, ∀ r' ∈ grammar, ∀ sp ∈ r.heads, ∀ sp' ∈ r'.heads, sp <+: sp' →
      r = r' ∨ r = shortBracket ∧ r' = longBracket := by decide +kernel
  exact h r hr r' hr' sp hsp sp' hsp' hle

/-- Two rules match the same text only if they are those of the brackets. -/
theorem brackets_of_match (hr : r ∈ grammar) (hr' : r' ∈ grammar) (hne : r ≠ r')
    {n' : Nat} (h : r.length? text = some n) (h' : r'.length? text = some n') :
    r = shortBracket ∧ r' = longBracket ∨ r = longBracket ∧ r' = shortBracket := by
  obtain ⟨sp, hsp, hbare⟩ := exists_head_of_length? hr h
  obtain ⟨sp', hsp', hbare'⟩ := exists_head_of_length? hr' h'
  rcases List.prefix_or_prefix_of_prefix hbare hbare' with hle | hle
  · exact .inl ((eq_or_brackets_of_heads hr hr' hsp hsp' hle).resolve_left hne)
  · obtain ⟨hs, hl⟩ := (eq_or_brackets_of_heads hr' hr hsp' hsp hle).resolve_left hne.symm
    exact .inr ⟨hl, hs⟩

theorem length?_longBracket (h : BeginsLong text) :
    longBracket.length? text = some (markLength text + 2) := by
  obtain ⟨t, rfl⟩ | ⟨t, rfl⟩ := h <;> rfl

theorem length?_shortBracket (h : BeginsLong text) :
    shortBracket.length? text = some (markLength text + 1) := by
  obtain ⟨t, rfl⟩ | ⟨t, rfl⟩ := h <;> rfl

theorem beginsLong_of_length? (h : longBracket.length? text = some n) : BeginsLong text := by
  obtain ⟨k, hk, _⟩ := Option.map_eq_some_iff.1 h
  simp only [if_true, Bool.false_eq_true, if_false, Nat.add_zero] at hk
  have htake : (text.drop (markLength text)).take k = ['[', '@'] := by
    simpa [spellings] using @exists_spelling_of_commandLength? true false _ _ _ _ hk
  have hhead : ['[', '@'] <+: text.drop (markLength text) := by
    rw [← htake]
    exact List.take_prefix k _
  unfold markLength at hhead
  split at hhead
  · exact .inr (by simpa using hhead)
  · exact .inl hhead

theorem not_beginsLong_of_ne {x : Char} (hx : x ≠ '[') (hmark : x ≠ '\x27') (t : List Char) :
    ¬ BeginsLong (x :: t) := by
  rintro (⟨u, hu⟩ | ⟨u, hu⟩)
  · exact hx (List.cons.inj hu).1.symm
  · exact hmark (List.cons.inj hu).1.symm

/-- **Two rules match the same text just where it begins with the bracket of two characters**, and
then they are the rules of the brackets. -/
theorem both_match_iff (hr : r ∈ grammar) (hr' : r' ∈ grammar) (hne : r ≠ r')
    (text : List Char) :
    ((∃ n, r.length? text = some n) ∧ ∃ n, r'.length? text = some n) ↔
      (r = shortBracket ∧ r' = longBracket ∨ r = longBracket ∧ r' = shortBracket) ∧
        BeginsLong text := by
  constructor
  · rintro ⟨⟨n, h⟩, n', h'⟩
    have hbrackets := brackets_of_match hr hr' hne h h'
    refine ⟨hbrackets, ?_⟩
    rcases hbrackets with ⟨_, rfl⟩ | ⟨rfl, _⟩
    · exact beginsLong_of_length? h'
    · exact beginsLong_of_length? h
  · rintro ⟨⟨rfl, rfl⟩ | ⟨rfl, rfl⟩, hlong⟩
    · exact ⟨⟨_, length?_shortBracket hlong⟩, _, length?_longBracket hlong⟩
    · exact ⟨⟨_, length?_longBracket hlong⟩, _, length?_shortBracket hlong⟩

/-! ### The first match -/

theorem firstMatch_of_first (hr : r ∈ rules) (h : r.length? text = some n)
    (hfirst : ∀ r' ∈ rules, ∀ n', r'.length? text = some n' → rules.idxOf r ≤ rules.idxOf r') :
    firstMatch rules text = some (r.kind, n) := by
  obtain ⟨before, after, rfl, hbefore⟩ := List.eq_append_cons_of_mem hr
  have hnone : ∀ r' ∈ before, (r'.length? text).map (r'.kind, ·) = none := by
    intro r' hr'
    rw [Option.map_eq_none_iff, Option.eq_none_iff_forall_ne_some]
    intro n' h'
    have hle := hfirst r' (List.mem_append_left _ hr') n' h'
    rw [List.idxOf_append_of_mem hr', List.idxOf_append_of_notMem hbefore,
      List.idxOf_cons_self] at hle
    have hlt := List.idxOf_lt_length_iff.2 hr'
    omega
  rw [firstMatch, List.findSome?_append, List.findSome?_eq_none_iff.2 hnone, Option.none_or,
    List.findSome?_cons, h]
  rfl

theorem firstMatch_eq_none (h : ∀ r ∈ rules, r.length? text = none) :
    firstMatch rules text = none := by
  rw [firstMatch, List.findSome?_eq_none_iff]
  intro r hr
  rw [h r hr]
  rfl

/-- A text that does not begin with the long bracket is left to the only rule that matches it. -/
theorem firstMatch_of_not_beginsLong (hp : rules.Perm grammar) (hlong : ¬ BeginsLong text)
    (hr : r ∈ grammar) (h : r.length? text = some n) :
    firstMatch rules text = some (r.kind, n) := by
  apply firstMatch_of_first (hp.mem_iff.2 hr) h
  intro r' hr' n' h'
  have hsame : r = r' := by
    by_contra hne
    exact hlong ((both_match_iff hr (hp.mem_iff.1 hr') hne text).1 ⟨⟨n, h⟩, n', h'⟩).2
  exact Nat.le_of_eq (congrArg rules.idxOf hsame)

theorem eq_bracket_of_match (hlong : BeginsLong text) (hr : r ∈ grammar)
    (h : r.length? text = some n) : r = longBracket ∨ r = shortBracket := by
  by_cases hne : r = longBracket
  · exact .inl hne
  · rcases brackets_of_match hr (by decide) hne h (length?_longBracket hlong) with ⟨hs, _⟩ | ⟨hl, _⟩
    · exact .inr hs
    · exact .inl hl

/-- A text that begins with the long bracket is left to the rule of the brackets that is first. -/
theorem firstMatch_of_beginsLong (hp : rules.Perm grammar) (hlong : BeginsLong text) :
    firstMatch rules text =
      if rules.idxOf longBracket < rules.idxOf shortBracket then
        some (.command, markLength text + 2)
      else some (.command, markLength text + 1) := by
  split
  · rename_i hlt
    apply firstMatch_of_first (r := longBracket) (hp.mem_iff.2 (by decide))
      (length?_longBracket hlong)
    intro r' hr' n' h'
    rcases eq_bracket_of_match hlong (hp.mem_iff.1 hr') h' with rfl | rfl <;> omega
  · rename_i hge
    apply firstMatch_of_first (r := shortBracket) (hp.mem_iff.2 (by decide))
      (length?_shortBracket hlong)
    intro r' hr' n' h'
    rcases eq_bracket_of_match hlong (hp.mem_iff.1 hr') h' with rfl | rfl <;> omega

theorem grammar_longBracket_first : grammar.idxOf longBracket < grammar.idxOf shortBracket := by
  decide

/-- The first match is as long as any other. -/
theorem exists_firstMatch_ge (hr : r ∈ grammar) (h : r.length? text = some n) :
    ∃ k m, firstMatch grammar text = some (k, m) ∧ n ≤ m := by
  by_cases hlong : BeginsLong text
  · rw [firstMatch_of_beginsLong (.refl _) hlong, if_pos grammar_longBracket_first]
    refine ⟨_, _, rfl, ?_⟩
    rcases eq_bracket_of_match hlong hr h with rfl | rfl
    · rw [length?_longBracket hlong, Option.some.injEq] at h
      omega
    · rw [length?_shortBracket hlong, Option.some.injEq] at h
      omega
  · exact ⟨_, _, firstMatch_of_not_beginsLong (.refl _) hlong hr h, Nat.le_refl n⟩

/-- Another order of the rules finds the same matches if it keeps the long bracket first. -/
theorem firstMatch_perm (hp : rules.Perm grammar)
    (hfirst : rules.idxOf longBracket < rules.idxOf shortBracket) (text : List Char) :
    firstMatch rules text = firstMatch grammar text := by
  by_cases hlong : BeginsLong text
  · rw [firstMatch_of_beginsLong hp hlong, firstMatch_of_beginsLong (.refl _) hlong, if_pos hfirst,
      if_pos grammar_longBracket_first]
  · by_cases hnone : ∀ r ∈ grammar, r.length? text = none
    · rw [firstMatch_eq_none fun r hr => hnone r (hp.mem_iff.1 hr), firstMatch_eq_none hnone]
    · push Not at hnone
      obtain ⟨r, hr, h⟩ := hnone
      obtain ⟨n, h⟩ := Option.ne_none_iff_exists'.1 h
      rw [firstMatch_of_not_beginsLong hp hlong hr h,
        firstMatch_of_not_beginsLong (.refl _) hlong hr h]

end TwinTape.Rule
