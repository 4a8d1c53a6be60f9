import Solfege.Binary64.PowerOfTwo
import Solfege.Number.Arithmetic
import Solfege.Pitch.Basic

/-! Frequencies in equal temperament: twelve semitones double the frequency, and number 69, the A
of octave 4, has a given one. -/
namespace Solfege.Pitch

def concertPitch : Number := .real 440

/-- Octaves above number 69, as a real. -/
def octavesAboveA (number : Number) : Except Fault Binary64 :=
  match number with
  | .real x => return (x - 69) / 12
  | n =>
    let octaves := Binary64.ofRatio (n.whole?.getD 0 - 69) 12
    if octaves.isFinite then return octaves else throw .quotientTooLarge

/-- The frequency in hertz of a number, whole or fractional. -/
def frequency (number a4 : Number) : Except Fault Binary64 := do
  match (← octavesAboveA number).powerOfTwo? with
  | some ratio => return (← a4.toReal) * ratio
  | none => throw .powerTooLarge

def frequencyOf (name : String) (a4 : Number) : Except Fault Binary64 := do
  frequency (.whole (← numberOf name)) a4

end Solfege.Pitch
