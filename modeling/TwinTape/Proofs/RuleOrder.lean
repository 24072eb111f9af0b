import TwinTape.Proofs.Patterns
import TwinTape.Proofs.Compile
import Mathlib.Data.List.Rotate

/-! # The order of the rules

The rules may be tried in any order in which the bracket of two characters comes before that of one
character: the first match is the same, so every call of the lexer is (`nextWith_congr`), and so are
all tokens of a text (`scanWith_congr`).  In any other order the lexer finds another token wherever
the bracket of two characters stands (`nextWith_ne_next`). -/

namespace TwinTape

namespace Lexer
open Rule
variable {rules rules' : List Rule}

/-! ### Tokens -/

/-- The rules count for the lexer only by what they match first. -/
theorem nextWith_congr (h : ∀ text, firstMatch rules text = firstMatch rules' text)
    (lexer : Lexer) : lexer.nextWith rules = lexer.nextWith rules' := by
  fun_induction nextWith rules lexer with
  | case1 lexer hr => rw [nextWith_of_end hr]
  | case2 lexer c t hr _ hq ih => rw [nextWith_of_inside hq (by simp [hr]), ih]
  | case3 lexer c t hr _ hq kind n hn =>
      rw [h] at hn
      rw [nextWith_of_match (Bool.eq_false_iff.2 hq) hn]
  | case4 lexer t hq hn hr _ ih =>
      rw [h] at hn
      rw [nextWith_of_quote (Bool.eq_false_iff.2 hq) hn hr, ih]
  | case5 lexer c t hr _ hq hn hc =>
      rw [h] at hn
      rw [nextWith_of_stuck (Bool.eq_false_iff.2 hq) hn ⟨c, t, hr, hc⟩]

theorem scanWith_congr (h : ∀ lexer : Lexer, lexer.nextWith rules = lexer.nextWith rules')
    (lexer : Lexer) : lexer.scanWith rules = lexer.scanWith rules' := by
  fun_induction scanWith rules lexer with
  | case1 lexer t after hnext _ tokens last hscan ih =>
      rw [h] at hnext
      rw [scanWith_of_token hnext, ← ih, hscan]
  | case2 lexer after hnext =>
      rw [h] at hnext
      rw [scanWith_of_end hnext]
  | case3 lexer fault after hnext =>
      rw [h] at hnext
      rw [scanWith_of_fault hnext]

/-- If the short bracket is tried first, the lexer finds another token wherever the long bracket
stands. -/
theorem nextWith_ne_next (hp : rules.Perm grammar)
    (hfirst : ¬ rules.idxOf longBracket < rules.idxOf shortBracket) {lexer : Lexer}
    (hq : lexer.quoted = false) (hlong : BeginsLong lexer.rest) :
    lexer.nextWith rules ≠ lexer.next ∧ lexer.scanWith rules ≠ lexer.scan := by
  have hshort : firstMatch rules lexer.rest = some (.command, markLength lexer.rest + 1) := by
    rw [firstMatch_of_beginsLong hp hlong, if_neg hfirst]
  have hmatch : firstMatch grammar lexer.rest = some (.command, markLength lexer.rest + 2) := by
    rw [firstMatch_of_beginsLong (.refl _) hlong, if_pos grammar_longBracket_first]
  have hle := (firstMatch_bounds hmatch).2
  have htoken : lexer.token .command (markLength lexer.rest + 1) ≠
      lexer.token .command (markLength lexer.rest + 2) := by
    intro htoken
    have hlen := congrArg (fun t => t.lexeme.length) htoken
    simp only [token, List.length_take] at hlen
    omega
  have hnext := nextWith_of_match hq hshort
  have hnext' := nextWith_of_match hq hmatch
  constructor
  · rw [next, hnext, hnext']
    intro h
    exact htoken (Option.some.inj (Except.ok.inj (Prod.mk.inj h).1))
  · rw [scan, scanWith_of_token hnext, scanWith_of_token hnext']
    intro h
    exact htoken (List.cons.inj (Prod.mk.inj h).1).1

end Lexer

namespace Rule

/-- **The first match is the longest, and the order of the rules matters in one place only.**  Every
rule takes what its pattern takes.  The first rule that matches takes as much as any other.  Two
rules match the same text just where it begins with the bracket of two characters, and they are the
rules of the brackets.  In another order of the rules every lexer does the same if the bracket of
two characters is still tried before that of one character; otherwise it does not, wherever the
text begins with the bracket of two characters. -/
theorem first_match_longest :
    (∀ r ∈ grammar, ∀ text, r.length? text = r.pattern.take? text) ∧
    (∀ r ∈ grammar, ∀ text n, r.length? text = some n →
      ∃ k m, firstMatch grammar text = some (k, m) ∧ n ≤ m) ∧
    (grammar.Nodup ∧ ∀ r ∈ grammar, ∀ r' ∈ grammar, r ≠ r' → ∀ text,
      ((∃ n, r.length? text = some n) ∧ ∃ n, r'.length? text = some n) ↔
        (r = shortBracket ∧ r' = longBracket ∨ r = longBracket ∧ r' = shortBracket) ∧
          BeginsLong text) ∧
    ∀ rules, rules.Perm grammar →
      (rules.idxOf longBracket < rules.idxOf shortBracket → ∀ lexer : Lexer,
        lexer.nextWith rules = lexer.next ∧ lexer.scanWith rules = lexer.scan) ∧
      (¬ rules.idxOf longBracket < rules.idxOf shortBracket → ∀ lexer : Lexer,
        lexer.quoted = false → BeginsLong lexer.rest →
          lexer.nextWith rules ≠ lexer.next ∧ lexer.scanWith rules ≠ lexer.scan) := by
  refine ⟨?_, ?_, ⟨by decide, ?_⟩, ?_⟩
  · intro r hr text
    exact length?_eq_take? hr text
  · intro r hr text n h
    exact exists_firstMatch_ge hr h
  · intro r hr r' hr' hne text
    exact both_match_iff hr hr' hne text
  · intro rules hp
    constructor
    · intro hfirst lexer
      have hnext := Lexer.nextWith_congr (firstMatch_perm hp hfirst)
      exact ⟨hnext lexer, Lexer.scanWith_congr hnext lexer⟩
    · intro hfirst lexer hq hlong
      exact Lexer.nextWith_ne_next hp hfirst hq hlong

/-- A count is taken with its bars and its sign.  A bracket with an at sign is still one token if the
rules are turned round until the longer bracket is tried first; one rule further, it is two. -/
theorem first_match_longest_rotated :
    (command true true '>' []).pattern.take? "'|-12|>".toList = some 7 ∧
    shortBracket.length? "'[@]:".toList = some 2 ∧ longBracket.length? "'[@]:".toList = some 3 ∧
    (∃ k m, firstMatch grammar "'[@]:".toList = some (k, m) ∧ 2 ≤ m) ∧
    BeginsLong "'[@]:".toList ∧
    ((grammar.rotate 12).Perm grammar ∧
      (Lexer.ofText "demo" "'[@]:").scanWith (grammar.rotate 12) =
        (Lexer.ofText "demo" "'[@]:").scan) ∧
    (grammar.rotate 13).Perm grammar ∧
      (Lexer.ofText "demo" "'[@]:").scanWith (grammar.rotate 13) ≠
        (Lexer.ofText "demo" "'[@]:").scan := by
  obtain ⟨htake, hlongest, ⟨_, hboth⟩, horder⟩ := first_match_longest
  have hshort : shortBracket.length? "'[@]:".toList = some 2 := by decide
  have hlong : longBracket.length? "'[@]:".toList = some 3 := by decide
  have hbegins : BeginsLong "'[@]:".toList :=
    ((hboth shortBracket (by decide) longBracket (by decide) (by decide) _).1
      ⟨⟨2, hshort⟩, 3, hlong⟩).2
  have hkept := (horder _ (grammar.rotate_perm 12)).1 (by decide)
  have hbroken := (horder _ (grammar.rotate_perm 13)).2 (by decide)
  refine ⟨?_, hshort, hlong, hlongest shortBracket (by decide) _ 2 hshort, hbegins,
    ⟨grammar.rotate_perm 12, (hkept _).2⟩, grammar.rotate_perm 13, (hbroken _ rfl hbegins).2⟩
  rw [← htake _ (by decide)]
  decide

end Rule
end TwinTape
