import TwinTape.Proofs.Step
import TwinTape.Proofs.Structured
import TwinTape.Proofs.Words

/-! # Printed numbers read back

What a program prints for a number can be entered as a line, and gives the same bits.  Three facts
are put together: the text has no blanks and no line ends, so nothing is cut off
(`enteredAs_of_shows`); it writes a quantity that rounds to the number, so it is read as the number
with the same parts (`Writes.number?_eq`); and the parts determine the bits
(`toBits_of_not_isNaN`). -/

namespace TwinTape

/-! ### Nothing is cut off -/

theorem dropWhile_of_forall {p : Char → Bool} {cs : List Char} (h : ∀ c ∈ cs, p c = false) :
    cs.dropWhile p = cs := by
  cases cs with
  | nil => rfl
  | cons c cs => simp [h c List.mem_cons_self]

theorem dropEndWhile_append {p : Char → Bool} {cs ends : List Char}
    (hcs : ∀ c ∈ cs, p c = false) (hends : ∀ c ∈ ends, p c = true) :
    Text.dropEndWhile p (cs ++ ends) = cs := by
  have hdrop : ∀ c ∈ ends.reverse, p c = true := fun c hc => hends c (List.mem_reverse.1 hc)
  have hkeep : ∀ c ∈ cs.reverse, p c = false := fun c hc => hcs c (List.mem_reverse.1 hc)
  rw [Text.dropEndWhile, List.reverse_append, List.dropWhile_append_of_pos hdrop,
    dropWhile_of_forall hkeep, List.reverse_reverse]

/-- Characters that show. -/
def Shows (c : Char) : Prop := 32 < c.toNat ∧ c.toNat < 127

theorem Shows.isBlank {c : Char} (h : Shows c) : Text.isBlank c = false := by
  obtain ⟨hlow, hhigh⟩ := h
  simp only [Text.isBlank, Text.blankRanges, List.any_cons, List.any_nil, Bool.or_false,
    Bool.or_eq_false_iff, Bool.and_eq_false_iff, decide_eq_false_iff_not]
  omega

theorem shows_of_isDigit {c : Char} (hc : c.isDigit = true) : Shows c := by
  obtain ⟨hlow, hhigh⟩ := Char.isDigit_iff_toNat.1 hc
  have hlow : 48 ≤ c.toNat := hlow
  have hhigh : c.toNat ≤ 57 := hhigh
  constructor <;> omega

instance (c : Char) : Decidable (Shows c) := inferInstanceAs (Decidable (_ ∧ _))

theorem shows_of_mem_signChars {negative : Bool} {c : Char}
    (hc : c ∈ Numeral.signChars negative) : Shows c := by
  cases negative with
  | true =>
      obtain rfl : c = '-' := List.mem_singleton.1 hc
      decide
  | false => cases hc

theorem Numeral.Valid.shows {n : Numeral} (h : n.Valid) : ∀ c ∈ n.chars, Shows c := by
  have hdigits : ∀ {ds}, IsDigits ds → ∀ c ∈ ds, Shows c := fun hds c hc =>
    shows_of_isDigit (hds.2 c hc)
  intro c hc
  rw [chars, mantissaChars, List.mem_append, List.mem_append, List.mem_append] at hc
  rcases hc with hsign | (hwhole | hfraction) | hexponent
  · exact shows_of_mem_signChars hsign
  · exact hdigits h.whole c hwhole
  · unfold fractionChars at hfraction
    cases hf : n.fraction with
    | none => simp [hf] at hfraction
    | some ds =>
        rw [hf] at hfraction
        rcases List.mem_cons.1 hfraction with rfl | hmem
        · decide
        · exact hdigits (h.fraction ds hf) c hmem
  · unfold exponentChars at hexponent
    cases he : n.exponent with
    | none => simp [he] at hexponent
    | some e =>
        rw [he] at hexponent
        obtain ⟨hsign, hds⟩ := h.exponent e he
        rcases List.mem_cons.1 hexponent with rfl | hmem
        · decide
        rcases List.mem_append.1 hmem with hmem | hmem
        · rcases hsign with hsign | hsign | hsign <;> rw [hsign] at hmem
          · cases hmem
          · obtain rfl := List.mem_singleton.1 hmem
            decide
          · obtain rfl := List.mem_singleton.1 hmem
            decide
        · exact hdigits hds c hmem

theorem Writes.shows {form : Numeral → Prop} {cs : List Char} {q : Quantity}
    (h : Writes form cs q) : ∀ c ∈ cs, Shows c := by
  cases h with
  | infinite negative =>
      intro c hc
      rcases List.mem_append.1 hc with hc | hc
      · exact shows_of_mem_signChars hc
      · have hword : ∀ c ∈ ['i', 'n', 'f'], Shows c := by simp [Shows]
        exact hword c hc
  | numeral hvalid _ => exact hvalid.shows

/-- The text is read as the number when it is entered, also with line ends after it. -/
def EnteredAs (cs : List Char) (x : Float) : Prop :=
  ∀ ends : List Char, (∀ c ∈ ends, c = '\r' ∨ c = '\n') →
    Medium.number.read (lineContent (cs ++ ends)) = .ok x

theorem enteredAs_of_shows {cs : List Char} {x : Float} (hcs : ∀ c ∈ cs, Shows c)
    (hx : Reader.number? cs = some x) : EnteredAs cs x := by
  intro ends hends
  have hkeep : ∀ c ∈ cs, (c == '\r' || c == '\n') = false := by
    intro c hc
    have hlow := (hcs c hc).1
    rw [Bool.or_eq_false_iff, beq_eq_false_iff_ne, beq_eq_false_iff_ne]
    constructor <;> rintro rfl <;> exact absurd hlow (by decide)
  have hline : lineContent (cs ++ ends) = cs :=
    dropEndWhile_append hkeep fun c hc => by simpa using hends c hc
  have hblank : ∀ c ∈ cs, Text.isBlank c = false := fun c hc => (hcs c hc).isBlank
  have htrim : Text.trim cs = cs := by
    rw [Text.trim, dropWhile_of_forall hblank]
    simpa using @dropEndWhile_append _ cs [] hblank (by simp)
  rw [hline, Medium.read, htrim, hx]

/-! ### Numbers as they are printed -/

section number
variable {x : Float}

theorem ofFloat_ne_nan (hx : x.isNaN = false) : Binary.ofFloat x ≠ .nan := by
  intro hnan
  rw [← Binary.isNaN_iff, hx] at hnan
  contradiction

theorem exists_writes (hx : x.isNaN = false) :
    ∃ q : Quantity, Writes Numeral.IsPlain (Style.listed.chars x) q ∧
      q.RoundsTo (Binary.ofFloat x) ∧
      Style.printed.chars x = signExponent (Style.listed.chars x) :=
  Style.exists_writes_listed (Binary.isNumber_ofBits (ofFloat_ne_nan hx))

theorem Writes.number?_eq {form : Numeral → Prop} {cs : List Char} {q : Quantity}
    (h : Writes form cs q) (hx : x.isNaN = false) (hq : q.RoundsTo (Binary.ofFloat x)) :
    Reader.number? cs = some x := by
  rw [Reader.number?, h.binary?_eq hq, Option.map_some,
    Binary.toFloat_ofFloat (ofFloat_ne_nan hx)]

/-- **A printed number is read back.** -/
theorem enteredAs_printed (hx : x.isNaN = false) : EnteredAs (Style.printed.chars x) x := by
  obtain ⟨q, hlisted, hround, hprinted⟩ := exists_writes hx
  have hwrites := hlisted.signExponent
  rw [← hprinted] at hwrites
  exact enteredAs_of_shows hwrites.shows (hwrites.number?_eq hx hround)

theorem toList_text (x : Float) : (Output.number x).text.toList = Style.printed.chars x :=
  String.toList_ofList

end number

namespace Machine
variable {m : Machine} {s : Scope} {cs ends : List Char} {x : Float}

/-- A machine that gets a line that is read as a number has the number in its cell. -/
theorem step_enter_of_enteredAs (draws : Draws) (hcs : EnteredAs cs x)
    (hi : m.program.instruction? m.counter = some (.perform s (.input .number)))
    (hwait : m.phase = .waiting) (hends : ∀ c ∈ ends, c = '\r' ∨ c = '\n') :
    (m.enter (cs ++ ends)).2.step draws =
      .ok ({ m.setMemory s ((m.memory s).set x) with phase := .ready }.advance, none) := by
  let entered := { m with phase := .supplied (lineContent (cs ++ ends)) }
  have henter : (m.enter (cs ++ ends)).2 = entered := by
    rw [enter, isWaiting, hwait]
    rfl
  have hsteps : Steps draws entered _ none := .input hi rfl (hcs ends hends)
  rw [henter, hsteps.step_eq]
  cases s <;> rfl

end Machine

/-! ### Bit for bit -/

/-- What becomes of the number with the given bits when it is printed. -/
structure ReadsBack (bits : UInt64) : Prop where
  /-- It is printed as it is listed, but for its exponent. -/
  signed : Style.printed.chars (Float.ofBits bits) =
    signExponent (Style.listed.chars (Float.ofBits bits))
  /-- What is printed writes the same as what is listed and nothing else, with a sign and at least
  two digits in the exponent. -/
  writes : ∃ q, Writes Numeral.IsPlain (Style.listed.chars (Float.ofBits bits)) q ∧
    ∀ r, Writes Numeral.IsSigned (Style.printed.chars (Float.ofBits bits)) r ↔ r = q
  /-- What is listed is read as the number. -/
  listed : Reader.number? (Style.listed.chars (Float.ofBits bits)) = some (Float.ofBits bits)
  /-- A machine that has the number in a cell prints it, and a machine that waits for a number and
  gets what was printed has the same bits in its cell. -/
  restored {draws₁ draws₂ : Draws} {m₁ m₂ : Machine} {s₁ s₂ : Scope} {ends : List Char} :
    m₁.program.instruction? m₁.counter = some (.perform s₁ (.output .number)) →
    (m₁.memory s₁).cell = Float.ofBits bits →
    m₂.program.instruction? m₂.counter = some (.perform s₂ (.input .number)) →
    m₂.phase = .waiting → (∀ c ∈ ends, c = '\r' ∨ c = '\n') →
    ∃ out next, m₁.step draws₁ = .ok ((m₁.push (.print out)).advance, none) ∧
      (m₂.enter (out.text.toList ++ ends)).2.step draws₂ = .ok (next, none) ∧
      (next.memory s₂).cell.toBits = bits
  /-- No other number is printed so. -/
  alone {other : UInt64} : (Float.ofBits other).isNaN = false →
    (Output.number (Float.ofBits other)).text = (Output.number (Float.ofBits bits)).text →
    other = bits

theorem toBits_of_not_isNaN {bits : UInt64} (h : (Float.ofBits bits).isNaN = false) :
    (Float.ofBits bits).toBits = bits := by
  refine Binary.toBits_ofBits ?_
  rw [← Binary.ofFloat_ofBits]
  exact ofFloat_ne_nan h

theorem readsBack_of_not_isNaN {bits : UInt64} (h : (Float.ofBits bits).isNaN = false) :
    ReadsBack bits := by
  obtain ⟨q, hlisted, hround, hprinted⟩ := exists_writes h
  have hentered := enteredAs_printed h
  refine ⟨hprinted, ⟨q, hlisted, ?_⟩, hlisted.number?_eq h hround, ?_, ?_⟩
  · intro r
    rw [hprinted]
    exact hlisted.signExponent_iff
  · intro draws₁ draws₂ m₁ m₂ s₁ s₂ ends h₁ hcell h₂ hwait hends
    have hwrite : Medium.number.write (m₁.memory s₁).cell = .ok (.number (Float.ofBits bits)) := by
      rw [hcell]
      rfl
    rw [← toList_text] at hentered
    refine ⟨_, _, (Machine.Steps.output h₁ hwrite).step_eq,
      Machine.step_enter_of_enteredAs draws₂ hentered h₂ hwait hends, ?_⟩
    have hmemory (memory : Memory) :
        ({ m₂.setMemory s₂ memory with phase := .ready }.advance).memory s₂ = memory := by
      cases s₂ <;> rfl
    rw [hmemory, Memory.cell_set, toBits_of_not_isNaN h]
  · intro other hother htext
    have hsame : Style.printed.chars (Float.ofBits other) =
        Style.printed.chars (Float.ofBits bits) := by rw [← toList_text, ← toList_text, htext]
    have hread := enteredAs_printed hother [] (by simp)
    rw [hsame, hentered [] (by simp)] at hread
    rw [← toBits_of_not_isNaN h, Except.ok.inj hread, toBits_of_not_isNaN hother]

/-- **Printed numbers read back.**  Every number is printed so that it can be read back bit for bit;
all that is not a number is printed as one word, which is read as such.  Whatever text writes a
number without plus signs, a sign and zeros in its exponent change neither what is written nor what
is read. -/
theorem printed_numbers_read_back :
    (∀ bits : UInt64, (Float.ofBits bits).isNaN = false → ReadsBack bits) ∧
    (∀ x : Float, x.isNaN = true → (Output.number x).text = "nan") ∧
    (∃ y : Float, y.isNaN = true ∧ EnteredAs "nan".toList y) ∧
    ∀ (cs : List Char) (q : Quantity), Writes Numeral.IsPlain cs q →
      (∀ r, Writes Numeral.IsSigned (signExponent cs) r ↔ r = q) ∧
        ∃ y, Reader.number? cs = some y ∧ EnteredAs (signExponent cs) y := by
  refine ⟨fun bits h => readsBack_of_not_isNaN h, ?_, ?_, ?_⟩
  · intro x hx
    rw [Binary.isNaN_iff] at hx
    rw [Output.text, Style.text, Style.chars, hx]
    rfl
  · exact ⟨_, Binary.isNaN_toFloat_nan, enteredAs_of_shows (by simp [Shows]) rfl⟩
  · intro cs q h
    obtain ⟨b, hcs, hsigned⟩ := h.binary?_signExponent
    refine ⟨fun _ => h.signExponent_iff, b.toFloat,
      by rw [Reader.number?, hcs, Option.map_some], ?_⟩
    refine enteredAs_of_shows h.signExponent.shows ?_
    rw [Reader.number?, hsigned, Option.map_some]

/-- Prints a cell of the local memory, and reads a number into the global one. -/
def Program.printAndRead : Program :=
  .ofCode "demo" [⟨.perform .local (.output .number), ⟨1, 1⟩⟩,
    ⟨.perform .global (.input .number), ⟨1, 4⟩⟩]

/-- A machine that is about to print minus zero. -/
def Machine.atMinusZero : Machine :=
  { program := .printAndRead
    «local» := ({} : Memory).set (Float.ofBits 0x8000000000000000)
    phase := .ready }

/-- A machine that waits for a number. -/
def Machine.atInput : Machine := { program := .printAndRead, counter := 1, phase := .waiting }

/-- Minus zero comes back with its sign. -/
theorem printed_numbers_read_back_minusZero :
    (Float.ofBits 0x8000000000000000).isNaN = false ∧ ∃ out next,
      Machine.atMinusZero.step (fun _ => 0.5) =
        .ok ((Machine.atMinusZero.push (.print out)).advance, none) ∧
      (Machine.atInput.enter (out.text.toList ++ ['\r', '\n'])).2.step (fun _ => 0.5) =
        .ok (next, none) ∧
      (next.memory .global).cell.toBits = 0x8000000000000000 := by
  have hnumber : (Float.ofBits 0x8000000000000000).isNaN = false := by decide
  have hends : ∀ c ∈ ['\r', '\n'], c = '\r' ∨ c = '\n' := by simp
  exact ⟨hnumber, (printed_numbers_read_back.1 _ hnumber).restored rfl rfl rfl rfl hends⟩

end TwinTape
