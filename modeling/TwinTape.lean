import TwinTape.Main
import TwinTape.Registers
import TwinTape.Proofs.Brackets
import TwinTape.Proofs.Matching
import TwinTape.Proofs.JumpTable
import TwinTape.Proofs.Step
import TwinTape.Proofs.Congruence
import TwinTape.Proofs.Ticks
import TwinTape.Proofs.Structured
import TwinTape.Proofs.Walks
import TwinTape.Proofs.StructuredRun
import TwinTape.Proofs.Compile
import TwinTape.Proofs.Invariant
import TwinTape.Proofs.Calls
import TwinTape.Proofs.Registers
import TwinTape.Proofs.Consistency
import TwinTape.Proofs.Courses
import TwinTape.Proofs.Bursts
import TwinTape.Proofs.Entered
import TwinTape.Proofs.Sessions
import TwinTape.Proofs.Lines
import TwinTape.Proofs.Failures
import TwinTape.Proofs.Places
import TwinTape.Proofs.Untraced
import TwinTape.Proofs.Reports
import TwinTape.Proofs.Isolation
import TwinTape.Proofs.Relocation
import TwinTape.Proofs.Concatenation
import TwinTape.Proofs.Unmatched
import TwinTape.Proofs.Spelling
import TwinTape.Proofs.Decoding
import TwinTape.Proofs.Strip
import TwinTape.Proofs.Opposites
import TwinTape.Proofs.Transcript
import TwinTape.Proofs.LineDiscipline
import TwinTape.Proofs.Interrupts
import TwinTape.Proofs.Standstill
import TwinTape.Proofs.Splicing
import TwinTape.Proofs.Renaming
import TwinTape.Proofs.LineEnds
import TwinTape.Proofs.Staircase
import TwinTape.Proofs.ProgramPaths
import TwinTape.Proofs.StraightLine
import TwinTape.Proofs.StepBound
import TwinTape.Proofs.Rounding
import TwinTape.Proofs.ShortestDigits
import TwinTape.Proofs.Numerals
import TwinTape.Proofs.Styles
import TwinTape.Proofs.Words
import TwinTape.Proofs.ReadBack
import TwinTape.Proofs.Overlaps
import TwinTape.Proofs.Patterns
import TwinTape.Proofs.RuleOrder
