import Solfege.Fault
import Solfege.Text.Blank

/-! Objects built from steps: a semitone `S` or a tone `T` at a time. -/
namespace Solfege.Aural

inductive Step
  | semitone | tone
deriving DecidableEq

namespace Step

def semitones : Step → Int
  | .semitone => 1
  | .tone => 2

/-- A step as written, in either case and with blanks around it. The long s counts as an s. -/
def read (unit : String) : Except Fault Step :=
  match Text.trimmed unit with
  | ['S'] | ['s'] | ['\u017f'] => return .semitone
  | ['T'] | ['t'] => return .tone
  | _ => throw (.unknownStep unit)

end Step

def partialSums (start : Int) : List Int → List Int
  | [] => [start]
  | size :: rest => start :: partialSums (start + size) rest

def total (sizes : List Int) : Int := sizes.foldl (· + ·) 0

def stepSizes (units : List String) : Except Fault (List Int) :=
  units.mapM fun unit => return (← Step.read unit).semitones

/-- The degrees of a scale of seven steps. The last step only closes the scale: the octave is
added when the seventh degree lies below it. -/
def scale (units : List String) : Except Fault (List Int) := do
  if units.length ≠ 7 then throw (.scaleSize units.length)
  let degrees := partialSums 0 (← stepSizes units).dropLast
  return if degrees.getLastD 0 < 12 then degrees ++ [12] else degrees

/-- The degrees of an interval of one to twelve steps. -/
def interval (units : List String) : Except Fault (List Int) := do
  if units.length < 1 ∨ 12 < units.length then throw (.intervalSize units.length)
  return [0, total (← stepSizes units)]

/-- The degrees of a triad of four steps, two up to the third and two up to the fifth. -/
def triad (units : List String) : Except Fault (List Int) := do
  if units.length ≠ 4 then throw (.triadSize units.length)
  let sizes ← stepSizes units
  return [0, total (sizes.take 2), total sizes]

end Solfege.Aural
