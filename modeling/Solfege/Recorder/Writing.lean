import Solfege.Midi.File
import Solfege.Recorder.Basic

/-! A recording as a MIDI file. Notes are moved so that the earliest one starts at beat zero,
seconds become beats at the engine's tempo, and beats become ticks. Notes outside the range of the
format are skipped. -/
namespace Solfege

structure Placement where
  pitch : UInt8
  time : Binary64
  duration : Binary64
  volume : Int
deriving DecidableEq

namespace Recorder

def trackName : String := "intuitune"

def beats (seconds tempo : Number) : Except Fault Binary64 := do
  let perSecond := (← tempo.toReal) / 60
  return (← seconds.toReal) * perSecond

/-- Loudness on the scale from 1 to 127. -/
def volume (velocity : Number) : Except Fault Int := do
  let scaled ← match velocity with
    | .real x => (x * 127).rounded
    | n => pure (n.whole?.getD 0 * 127)
  return max 1 (min 127 scaled)

/-- A note in beats from an origin, its pitch known to be in range. -/
def placement (tempo origin : Number) (pitch : UInt8) (note : RecordedNote) :
    Except Fault Placement := do
  let time ← beats (← note.start.sub origin) tempo
  let duration ← beats note.duration tempo
  return ⟨pitch, time, duration, ← volume note.velocity⟩

def ticked (placement : Placement) : Except Fault Midi.Note := do
  let tick ← (placement.time * Binary64.ofInt Midi.ticksPerBeat).truncated
  let length ← (placement.duration * Binary64.ofInt Midi.ticksPerBeat).truncated
  return ⟨placement.pitch, UInt8.ofNat placement.volume.toNat, tick, length⟩

/-- The start of the earliest note, skipped ones included; zero when there is none. -/
def earliest : List RecordedNote → Number
  | [] => .real 0
  | note :: rest => Number.least note.start (rest.map (·.start))

/-- The numbers of the notes skipped up to the first fault, and the others on the grid. -/
def place (tempo origin : Number) : List RecordedNote → List Int × Except Fault (List Midi.Note)
  | [] => ([], .ok [])
  | note :: rest =>
    if 0 ≤ note.number ∧ note.number ≤ 127 then
      match placement tempo origin (UInt8.ofNat note.number.toNat) note >>= ticked with
      | .error fault => ([], .error fault)
      | .ok placed =>
        let (skipped, others) := place tempo origin rest
        (skipped, others.map (placed :: ·))
    else
      let (skipped, others) := place tempo origin rest
      (note.number :: skipped, others)

def microseconds (tempo : Number) : Except Fault Int := do
  (← Number.dividing 60000000 tempo).truncated

/-- What a recording has to be before it is written out: the tempo and the events of its notes. -/
structure Draft where
  microseconds : Int
  events : List Midi.Timed

/-- The draft of a recording, with the numbers of the notes skipped on the way. -/
def draft (recorder : Recorder) : List Int × Except Fault Draft :=
  match microseconds recorder.tempo with
  | .error fault => ([], .error fault)
  | .ok beat =>
    let (skipped, notes) := place recorder.tempo (earliest recorder.notes) recorder.notes
    (skipped, notes.map fun placed =>
      ⟨beat, Midi.noteTrack trackName.toUTF8.toList (UInt8.ofNat recorder.program.toNat) placed⟩)

def Draft.bytes (draft : Draft) : Except Fault (List UInt8) :=
  Midi.fileBytes draft.microseconds draft.events

/-- The bytes of a recording, with the numbers of the notes skipped on the way. -/
def bytes (recorder : Recorder) : List Int × Except Fault (List UInt8) :=
  let (skipped, result) := recorder.draft
  (skipped, result >>= Draft.bytes)

end Recorder
end Solfege
