import Solfege.Number.Arithmetic

/-! What happens while music is compiled, played and written, in order. Most happenings show as a
line of the log; a unit or a playback coming to its end does not, nor does a line with a number that
cannot be written. -/
namespace Solfege

inductive Happening
  /-- a text was compiled -/
  | compiled (tokens events rejected : Nat)
  /-- tokens of a text were left out -/
  | leftOut (warning : String)
  /-- a playback was set up -/
  | scheduled (units : Nat) (length : Binary64)
  /-- a task of a playback ran: a unit by its place in the score, or the completion -/
  | ran (playback : Nat) (unit : Option Nat)
  /-- an engine recorded notes, for a playback or on direct request -/
  | triggered (playback : Option Nat) (names : List String) (start duration velocity : Binary64)
  /-- a playback ended, by completion or by a stop -/
  | ended (playback : Nat)
  /-- a playback was stopped with timers still pending -/
  | stopped (pending : Nat)
  /-- a playback that had ended was stopped again -/
  | stopIgnored
  /-- a note out of range was not written -/
  | skipped (number : Int)

inductive Severity
  | debug | warning
deriving DecidableEq

structure LogLine where
  severity : Severity
  source : String
  text : String
deriving DecidableEq

namespace Happening

def nameList (names : List String) : String :=
  "[" ++ ", ".intercalate (names.map Text.quoted) ++ "]"

/-- The line of the log that a happening shows as. -/
def line? : Happening → Option LogLine
  | .compiled tokens events rejected =>
    some ⟨.debug, "intuitune.notation_compiler",
      "Compiled " ++ toString tokens ++ " token(s): " ++ toString events ++ " event(s), " ++
        toString rejected ++ " rejected"⟩
  | .leftOut warning =>
    some ⟨.warning, "intuitune.notation_compiler", "Failed to parse the tokens: " ++ warning⟩
  | .scheduled units length =>
    some ⟨.debug, "intuitune.scheduler",
      "Scheduled " ++ toString units ++ " unit(s) over " ++ Numeral.fixed 3 length ++ "s"⟩
  | .triggered _ names start duration velocity =>
    some ⟨.debug, "intuitune.midi_engine",
      "Triggered " ++ nameList names ++ " at " ++ Numeral.fixed 3 start ++ "s for " ++
        Numeral.fixed 3 duration ++ "s (velocity " ++ Numeral.fixed 2 velocity ++ ")"⟩
  | .stopped pending =>
    some ⟨.debug, "intuitune.scheduler",
      "Playback stopped, " ++ toString pending ++ " pending timer(s) cancelled"⟩
  | .stopIgnored =>
    some ⟨.debug, "intuitune.scheduler", "stop_playback on a finished playback ignored"⟩
  | .skipped number => do
    let number ← Numeral.whole? number
    return ⟨.warning, "intuitune.midi_engine",
      "Skipping note " ++ number ++ " outside the MIDI range"⟩
  | .ran .. | .ended _ => none

end Happening

namespace LogLine

/-- A line as it is written, its severity first. -/
def render (line : LogLine) : String :=
  (match line.severity with
    | .debug => "DEBUG "
    | .warning => "WARNING ") ++ line.source ++ ": " ++ line.text

end LogLine

def logOf (journal : List Happening) : List String :=
  journal.filterMap fun happening => happening.line?.map LogLine.render

end Solfege
