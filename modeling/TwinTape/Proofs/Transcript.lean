import TwinTape.Shell
import Mathlib.Data.Int.Notation
import Mathlib.Data.List.Basic

/-! # What a shell writes

A shell writes in strokes: a program prints, an open line is ended, or a report is written.  The
strokes of each thing that a shell does are listed here, and drawn one after the other they give the
screen that it leaves (`Shell.screen_run`, `Shell.screen_ofOptions`).

A screen that knows whether its last line is open still knows it after any stroke
(`Screen.KnowsLine.drawAll`): what a program prints is not empty, and its last character is a line
feed only if it says so (`Output.getLast?_text`).  So every report begins a line
(`Screen.KnowsLine.report`). -/

namespace TwinTape

/-! ### Numbers have no line feed -/

namespace Style
variable {style : Style}

theorem not_lineFeed_of_mem_toDigits {n : ℕ} {c : Char} (hc : c ∈ Nat.toDigits 10 n) :
    c ≠ '\n' := by
  rintro rfl
  exact absurd (Nat.isDigit_of_mem_toDigits (by omega) (by omega) hc) (by decide)

theorem lineFeed_not_mem_exponentChars (exponent : ℤ) :
    '\n' ∉ style.exponentChars exponent := by
  have hdigits : '\n' ∉ Nat.toDigits 10 exponent.natAbs :=
    fun h => not_lineFeed_of_mem_toDigits h rfl
  have hsign : '\n' ∉ if exponent < 0 then ['-'] else if style.plusSign then ['+'] else [] := by
    split
    · decide
    · split <;> decide
  simp only [exponentChars, List.mem_append, not_or]
  exact ⟨⟨hsign, fun h => absurd (List.eq_of_mem_replicate h) (by decide)⟩, hdigits⟩

theorem lineFeed_not_mem_positional (d : Decimal) : '\n' ∉ positional d := by
  have hdigits : '\n' ∉ Nat.toDigits 10 d.digits := fun h => not_lineFeed_of_mem_toDigits h rfl
  unfold positional
  dsimp only
  split
  · simp [hdigits]
  · split
    · simp [mt List.mem_of_mem_take hdigits, mt List.mem_of_mem_drop hdigits]
    · simp [hdigits]

theorem lineFeed_not_mem_scientific (d : Decimal) : '\n' ∉ style.scientific d := by
  have hdigits : '\n' ∉ Nat.toDigits 10 d.digits := fun h => not_lineFeed_of_mem_toDigits h rfl
  unfold scientific
  dsimp only
  split
  · simp [hdigits, lineFeed_not_mem_exponentChars]
  · simp [mt List.mem_of_mem_take hdigits, mt List.mem_of_mem_tail hdigits,
      lineFeed_not_mem_exponentChars]

theorem lineFeed_not_mem_chars (hword : '\n' ∉ style.nanWord) (x : Float) :
    '\n' ∉ style.chars x := by
  unfold chars
  cases Binary.ofFloat x with
  | nan => exact hword
  | infinite negative => cases negative <;> simp [binary]
  | finite negative mantissa shift =>
      have hdecimal : ∀ d, '\n' ∉ style.decimal d := by
        intro d
        unfold decimal
        split
        · exact lineFeed_not_mem_positional d
        · exact lineFeed_not_mem_scientific d
      rw [binary, List.mem_append, not_or]
      constructor
      · cases negative <;> decide
      · split
        · decide
        · exact hdecimal _

theorem decimal_ne_nil (d : Decimal) : style.decimal d ≠ [] := by
  unfold decimal positional scientific
  dsimp only
  repeat' split
  all_goals simp

theorem chars_ne_nil (hword : style.nanWord ≠ []) (x : Float) : style.chars x ≠ [] := by
  unfold chars
  cases Binary.ofFloat x with
  | nan => exact hword
  | infinite negative => simp [binary]
  | finite negative mantissa shift =>
      refine List.append_ne_nil_of_right_ne_nil _ ?_
      split
      · decide
      · exact decimal_ne_nil _

end Style

namespace Output

theorem text_ne_nil (o : Output) : o.text.toList ≠ [] := by
  cases o with
  | number x =>
      rw [text, Style.text, String.toList_ofList]
      exact Style.chars_ne_nil (by decide) x
  | character c => simp [text]

theorem getLast?_text (o : Output) : o.text.toList.getLast? = some '\n' ↔ o.endsLine = true := by
  cases o with
  | number x =>
      rw [text, Style.text, String.toList_ofList]
      constructor
      · intro h
        exact absurd (List.mem_of_getLast? h) (Style.lineFeed_not_mem_chars (by decide) x)
      · intro h
        simp [endsLine] at h
  | character c => simp [text, endsLine]

end Output

/-! ### Strokes -/

/-- The text is empty, or its last character is a line feed. -/
def AtLineStart (text : String) : Prop := text = "" ∨ text.toList.getLast? = some '\n'

theorem atLineStart_append_lineFeed (text : String) : AtLineStart (text ++ "\n") := by
  refine .inr ?_
  rw [String.toList_append]
  exact List.getLast?_concat

/-- One thing that is written. -/
inductive Stroke where
  /-- A program prints. -/
  | output (o : Output)
  /-- A line is ended if it is open. -/
  | lineEnd
  | report (level : Level) (text : String)

namespace Screen
variable {screen : Screen}

/-- The screen after a stroke. -/
def draw (screen : Screen) : Stroke → Screen
  | .output o => screen.print o
  | .lineEnd => screen.finishLine
  | .report level text => screen.report level text

/-- The screen after some strokes. -/
def drawAll (screen : Screen) (strokes : List Stroke) : Screen := strokes.foldl draw screen

theorem drawAll_append (strokes strokes' : List Stroke) :
    screen.drawAll (strokes ++ strokes') = (screen.drawAll strokes).drawAll strokes' :=
  List.foldl_append

/-- The screen knows whether its last line is open. -/
def KnowsLine (screen : Screen) : Prop :=
  screen.midLine = true ↔ screen.text ≠ "" ∧ screen.text.toList.getLast? ≠ some '\n'

theorem KnowsLine.atLineStart (h : screen.KnowsLine) (hmid : screen.midLine = false) :
    AtLineStart screen.text := by
  by_contra hstart
  have hopen := h.2 (not_or.1 hstart)
  rw [hmid] at hopen
  contradiction

theorem knowsLine_of_atLineStart (hmid : screen.midLine = false)
    (hstart : AtLineStart screen.text) : screen.KnowsLine := by
  unfold KnowsLine
  rw [hmid]
  refine ⟨fun h => absurd h Bool.false_ne_true, fun h => ?_⟩
  exact absurd hstart (not_or.2 h)

/-- It does not matter what was there before a program prints. -/
theorem knowsLine_print (screen : Screen) (o : Output) : (screen.print o).KnowsLine := by
  have hne : (screen.text ++ o.text).toList ≠ [] := by
    simp [o.text_ne_nil]
  have hlast : (screen.text ++ o.text).toList.getLast? = o.text.toList.getLast? := by
    rw [String.toList_append, List.getLast?_append, List.getLast?_eq_some_getLast o.text_ne_nil,
      Option.some_or]
  unfold KnowsLine print
  dsimp only
  rw [hlast, Ne, Ne, o.getLast?_text, Bool.not_eq_true', Bool.not_eq_true]
  refine ⟨fun h => ⟨fun h => hne ?_, h⟩, And.right⟩
  rw [h]
  rfl

theorem midLine_finishLine (screen : Screen) : screen.finishLine.midLine = false := by
  unfold finishLine
  split
  · rfl
  · rename_i h
    simpa using h

theorem midLine_report (screen : Screen) (level : Level) (text : String) :
    (screen.report level text).midLine = false := midLine_finishLine screen

theorem KnowsLine.finishLine (h : screen.KnowsLine) : AtLineStart screen.finishLine.text := by
  unfold Screen.finishLine
  split
  · exact atLineStart_append_lineFeed screen.text
  · rename_i hmid
    exact h.atLineStart (by simpa using hmid)

/-- A report begins a line and ends it. -/
theorem KnowsLine.report (h : screen.KnowsLine) (level : Level) (text : String) :
    ∃ written, AtLineStart written ∧
      (written = screen.text ∨ written = screen.text ++ "\n") ∧
      (screen.report level text).text = written ++ level.label ++ text ++ "\n" := by
  refine ⟨screen.finishLine.text, h.finishLine, ?_, rfl⟩
  unfold Screen.finishLine
  split
  · exact .inr rfl
  · exact .inl rfl

theorem KnowsLine.draw (h : screen.KnowsLine) (stroke : Stroke) :
    (screen.draw stroke).KnowsLine := by
  cases stroke with
  | output o => exact knowsLine_print screen o
  | lineEnd => exact knowsLine_of_atLineStart (midLine_finishLine screen) h.finishLine
  | report level text =>
      exact knowsLine_of_atLineStart (midLine_report screen level text)
        (atLineStart_append_lineFeed _)

theorem KnowsLine.drawAll (h : screen.KnowsLine) (strokes : List Stroke) :
    (screen.drawAll strokes).KnowsLine := by
  induction strokes generalizing screen with
  | nil => exact h
  | cons stroke strokes ih => exact ih (h.draw stroke)

theorem knowsLine_new : KnowsLine {} := knowsLine_of_atLineStart rfl (.inl rfl)

end Screen

/-! ### The strokes of a shell -/

/-- The notice is a fault. -/
def Notice.isFault : Notice → Bool
  | .fault _ => true
  | _ => false

namespace Shell

/-- The strokes of `debug`. -/
def debugStrokes (s : Shell) (text : String) : List Stroke :=
  if s.options.debugs then [.report .debug text] else []

/-- The strokes of `reportJumps`. -/
def jumpStrokes (s : Shell) (p : Program) : List Stroke :=
  if s.options.has .debugHeavy then
    let places := p.jumps.unmatched.map fun a => (p.position a).text
    .report .heavyDebug ("Jumps: " ++ p.jumps.text) ::
      if places = [] then []
      else [.report .heavyDebug ("Unmatched brackets at " ++ ", ".intercalate places)]
  else []

/-- The strokes of `start`. -/
def startStrokes (s : Shell) (source text : String) : List Stroke :=
  let m := s.machine.runText source text
  s.debugStrokes ("Raw code: " ++ Text.quoted text) ++
    if m.isRunning then
      s.debugStrokes ("Commands: " ++ m.program.text) ++ s.jumpStrokes m.program
    else []

/-- The strokes of `conclude`. -/
def concludeStrokes (s : Shell) : List Stroke :=
  .lineEnd :: (s.debugStrokes ("Global memory: " ++ s.machine.global.text) ++
    s.debugStrokes ("Local memory: " ++ s.machine.local.text))

/-- The strokes of `notify`. -/
def notifyStrokes (s : Shell) : Notice → List Stroke
  | .print output => [.output output]
  | .warning w => if s.options.warns w then [.report .warning (warningText w)] else []
  | .trace address =>
    match s.machine.program.instruction? address with
    | some i => [.report .heavyDebug (traceText s.machine address i)]
    | none => []
  | .fault f => [.report .error f.message]

/-- The strokes of `advance`. -/
def advanceStrokes (draws : Draws) (s : Shell) : List Stroke :=
  let (event, machine) := s.machine.execute draws budget
  let s := { s with machine := machine }
  match event with
  | .stopped => s.concludeStrokes
  | .running => []
  | .input _ => [.lineEnd]
  | .notice n => s.notifyStrokes n

/-- The strokes of `supply`: only a line that is a program is written about. -/
def supplyStrokes (s : Shell) (line : Line) : List Stroke :=
  match s.activity, line with
  | .prompting, .text line =>
    if line.toList.all Text.isBlank then [] else s.startStrokes "<input>" line
  | _, _ => []

/-- The strokes of `turn`. -/
def turnStrokes (draws : Draws) (s : Shell) (unread : List UInt8) : List Stroke :=
  match s.activity with
  | .driving => s.advanceStrokes draws
  | .answering | .prompting => s.supplyStrokes (Line.take unread).1
  | .done _ => []

/-- The strokes of `run`. -/
def runStrokes (draws : Draws) : ℕ → Shell → List UInt8 → List Stroke
  | 0, _, _ => []
  | turns + 1, s, unread =>
    s.turnStrokes draws unread ++
      runStrokes draws turns (s.turn draws unread).1 (s.turn draws unread).2

/-- The strokes of `ofOptions`. -/
def openingStrokes (lookup : String → Lookup) (o : Options) : List Stroke :=
  match o.code, o.path with
  | some code, _ => (idle o).startStrokes "<code>" code
  | none, some path =>
    let source := String.ofList (programPath path.toList)
    match (lookup source).text source with
    | .ok text => (idle o).startStrokes source text
    | .error fault => [.report .error fault.message]
  | none, none => []

/-- All strokes of a shell with the given options, after some turns. -/
def transcript (lookup : String → Lookup) (o : Options) (draws : Draws) (input : List UInt8)
    (turns : ℕ) : List Stroke :=
  openingStrokes lookup o ++ runStrokes draws turns (ofOptions lookup o) input

/-! ### The strokes give the screen -/

theorem debug_eq (s : Shell) (text : String) :
    s.debug text = { s with screen := s.screen.drawAll (s.debugStrokes text) } := by
  unfold debug debugStrokes
  split <;> rfl

theorem reportJumps_eq (s : Shell) (p : Program) :
    s.reportJumps p = { s with screen := s.screen.drawAll (s.jumpStrokes p) } := by
  unfold reportJumps jumpStrokes
  split
  · dsimp only
    split <;> rfl
  · rfl

theorem start_eq (s : Shell) (source text : String) :
    s.start source text =
      { s with
        screen := s.screen.drawAll (s.startStrokes source text)
        machine := s.machine.runText source text
        activity := .driving
        success := true } := by
  unfold start startStrokes
  dsimp only
  rw [debug_eq]
  split
  · rw [debug_eq, reportJumps_eq, Screen.drawAll_append, Screen.drawAll_append]
    rfl
  · rw [List.append_nil]

/-- What the shell does when a run is over. -/
def afterRun (s : Shell) : Activity :=
  if s.options.code.isNone && s.options.path.isNone then .prompting
  else .done (if s.success then 0 else 1)

theorem conclude_eq (s : Shell) :
    s.conclude =
      { s with screen := s.screen.drawAll s.concludeStrokes, activity := s.afterRun } := by
  unfold conclude
  dsimp only
  rw [debug_eq, debug_eq, ← Screen.drawAll_append]
  rfl

theorem notify_eq (s : Shell) (n : Notice) :
    s.notify n =
      { s with
        screen := s.screen.drawAll (s.notifyStrokes n)
        success := s.success && !n.isFault } := by
  cases n with
  | print => simp [notify, notifyStrokes, Notice.isFault, Screen.drawAll, Screen.draw]
  | fault f => simp [notify, notifyStrokes, report, Notice.isFault, Screen.drawAll, Screen.draw]
  | warning w =>
      simp only [notify, notifyStrokes, Notice.isFault, Bool.not_false, Bool.and_true]
      split <;> rfl
  | trace address =>
      simp only [notify, notifyStrokes, Notice.isFault, Bool.not_false, Bool.and_true]
      cases s.machine.program.instruction? address <;> rfl

/-! ### Turns -/

/-- What a shell can do in one turn: its strokes, and the shell after them. -/
inductive Turns (draws : Draws) (s : Shell) : List Stroke → Shell → Prop
  /-- The run is over. -/
  | stopped {m : Machine} : s.activity = .driving →
      s.machine.execute draws budget = (.stopped, m) →
      Turns draws s (concludeStrokes { s with machine := m })
        { s with
          machine := m
          screen := s.screen.drawAll (concludeStrokes { s with machine := m })
          activity := s.afterRun }
  /-- The program goes on. -/
  | running {m : Machine} : s.activity = .driving →
      s.machine.execute draws budget = (.running, m) → Turns draws s [] { s with machine := m }
  /-- The program waits for a line. -/
  | asks {m : Machine} {medium : Medium} : s.activity = .driving →
      s.machine.execute draws budget = (.input medium, m) →
      Turns draws s [.lineEnd]
        { s with machine := m, screen := s.screen.finishLine, activity := .answering }
  /-- Something has happened. -/
  | notice {m : Machine} {n : Notice} : s.activity = .driving →
      s.machine.execute draws budget = (.notice n, m) →
      Turns draws s (notifyStrokes { s with machine := m } n)
        { s with
          machine := m
          screen := s.screen.drawAll (notifyStrokes { s with machine := m } n)
          success := s.success && !n.isFault }
  /-- The program gets a line. -/
  | answers (line : List Char) : s.activity = .answering →
      Turns draws s [] { s with machine := (s.machine.enter line).2, activity := .driving }
  /-- The program is interrupted, because there is no line. -/
  | interrupts : s.activity = .answering →
      Turns draws s [] { s with machine := s.machine.interrupt, activity := .driving }
  /-- A program is started. -/
  | starts (source text : String) : s.activity = .prompting →
      Turns draws s (s.startStrokes source text) (s.start source text)
  /-- There is nothing to do. -/
  | stays : s.activity ≠ .driving → s.activity ≠ .answering → Turns draws s [] s
  /-- The input is at its end. -/
  | ends : s.activity = .prompting → Turns draws s [] { s with activity := .done 0 }
  /-- The input is not a text. -/
  | fails : s.activity = .answering ∨ s.activity = .prompting → Turns draws s [] s.fail

theorem turns_of_driving (draws : Draws) {s : Shell} (ha : s.activity = .driving) :
    s.Turns draws (s.advanceStrokes draws) (s.advance draws) := by
  unfold advance advanceStrokes
  rcases he : s.machine.execute draws budget with ⟨e, m⟩
  cases e with
  | stopped =>
      simp only [conclude_eq]
      exact .stopped ha he
  | running => exact .running ha he
  | input medium => exact .asks ha he
  | notice n =>
      simp only [notify_eq]
      exact .notice ha he

theorem turns_of_supply (draws : Draws) {s : Shell}
    (ha : s.activity = .answering ∨ s.activity = .prompting) (line : Line) :
    s.Turns draws (s.supplyStrokes line) (s.supply line) := by
  unfold supply supplyStrokes
  rcases ha with ha | ha
  · rw [ha]
    cases line with
    | text line => exact .answers line.toList ha
    | finished => exact .interrupts ha
    | malformed => exact .fails (.inl ha)
  · rw [ha]
    cases line with
    | text line =>
        simp only [prompt]
        split
        · exact .stays (by simp [ha]) (by simp [ha])
        · exact .starts "<input>" line ha
    | finished => exact .ends ha
    | malformed => exact .fails (.inr ha)

theorem turns (draws : Draws) (s : Shell) (unread : List UInt8) :
    s.Turns draws (s.turnStrokes draws unread) (s.turn draws unread).1 := by
  unfold turn turnStrokes
  cases ha : s.activity with
  | driving => exact turns_of_driving draws ha
  | answering => exact turns_of_supply draws (.inl ha) _
  | prompting => exact turns_of_supply draws (.inr ha) _
  | done status => exact .stays (by simp [ha]) (by simp [ha])

theorem Turns.screen {draws : Draws} {s next : Shell} {strokes : List Stroke}
    (h : s.Turns draws strokes next) : next.screen = s.screen.drawAll strokes := by
  cases h with
  | starts source text => rw [start_eq]
  | _ => rfl

theorem screen_run (draws : Draws) (turns : ℕ) (s : Shell) (unread : List UInt8) :
    (run draws turns s unread).1.screen =
      s.screen.drawAll (runStrokes draws turns s unread) := by
  induction turns generalizing s unread with
  | zero => rfl
  | succ turns ih =>
      rw [run, runStrokes, Screen.drawAll_append, ← (s.turns draws unread).screen]
      exact ih _ _

theorem screen_ofOptions (lookup : String → Lookup) (o : Options) :
    (ofOptions lookup o).screen = Screen.drawAll {} (openingStrokes lookup o) := by
  unfold ofOptions openingStrokes
  cases o.code with
  | some code =>
      dsimp only
      rw [start_eq]
      rfl
  | none =>
      cases o.path with
      | none => rfl
      | some path =>
          dsimp only
          cases (lookup (String.ofList (programPath path.toList))).text _ with
          | ok text =>
              dsimp only
              rw [start_eq]
              rfl
          | error fault => rfl

theorem screen_run_ofOptions (lookup : String → Lookup) (o : Options) (draws : Draws)
    (input : List UInt8) (turns : ℕ) :
    (run draws turns (ofOptions lookup o) input).1.screen =
      Screen.drawAll {} (transcript lookup o draws input turns) := by
  rw [screen_run, screen_ofOptions, transcript, Screen.drawAll_append]

end Shell
end TwinTape
