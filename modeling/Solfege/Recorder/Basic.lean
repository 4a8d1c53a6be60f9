import Solfege.Music.Basic
import Solfege.Number.Arithmetic

/-! An engine that records what it is asked to sound. Its clock starts at zero when it is made. -/
namespace Solfege

structure RecordedNote where
  number : Int
  start : Number
  duration : Number
  /-- loudness from zero to one -/
  velocity : Number
deriving DecidableEq

structure Recorder where
  tempo : Number
  /-- the instrument, from 0 to 127 -/
  program : Int
  /-- the time at which the engine was made -/
  origin : Binary64
  notes : List RecordedNote

namespace Recorder

def make (tempo : Number) (program : Int) (time : Binary64) : Except Fault Recorder :=
  if 0 ≤ program ∧ program ≤ 127 then return ⟨tempo, program, time, []⟩
  else throw (.programRange program)

/-- The engine made where none is given. -/
def standard (time : Binary64) : Recorder := ⟨Duration.referenceTempo, 0, time, []⟩

/-- Seconds since the engine was made. -/
def now (recorder : Recorder) (time : Binary64) : Binary64 := time - recorder.origin

/-- A note for each name up to the first that is no pitch name, which is the fault. -/
def notesFor (duration start velocity : Number) :
    List String → List RecordedNote × Except Fault Unit
  | [] => ([], .ok ())
  | name :: rest =>
    match Pitch.numberOf name with
    | .error fault => ([], .error fault)
    | .ok number =>
      let (notes, outcome) := notesFor duration start velocity rest
      (⟨number, start, duration, velocity⟩ :: notes, outcome)

/-- Records the names of a sound. Names before one that is no pitch name stay recorded. -/
def trigger (recorder : Recorder) (names : List String) (duration start velocity : Number) :
    Recorder × Except Fault Unit :=
  let (notes, outcome) := notesFor duration start velocity names
  ({ recorder with notes := recorder.notes ++ notes }, outcome)

def clear (recorder : Recorder) : Recorder := { recorder with notes := [] }

end Recorder
end Solfege
