import Solfege.Duration.Code
import Solfege.Number.Arithmetic

/-! Durations in seconds. A code lasts its quarters at a tempo in quarters per minute; a number is
already in seconds. -/
namespace Solfege

/-- How long a note lasts: a duration code or a length. -/
inductive NoteLength
  | code (text : String)
  | seconds (n : Number)
deriving DecidableEq

namespace Duration

/-- The tempo at which music is laid out unless another is given. -/
def referenceTempo : Number := .real 120

def checkTempo (tempo : Number) : Except Fault Unit :=
  if tempo.isPositiveOrNaN then return () else throw (.tempoNotPositive tempo)

def quartersReal (q : Rat) : Except Fault Binary64 :=
  let x := Binary64.ofRatio q.num q.den
  if x.isFinite then return x else throw .quotientTooLarge

/-- The seconds of a duration code, blanks around it ignored. -/
def codeSeconds (code : String) (tempo : Number) : Except Fault Binary64 := do
  checkTempo tempo
  let quarterSeconds := 60 / (← tempo.toReal)
  return (← quartersReal (← quarters (Text.trimmed code))) * quarterSeconds

end Duration

/-- The seconds of a length, a number being taken as it is whatever the tempo. -/
def NoteLength.toSeconds (length : NoteLength) (tempo : Number) : Except Fault Binary64 :=
  match length with
  | .code text => Duration.codeSeconds text tempo
  | .seconds n => do
    Duration.checkTempo tempo
    n.toReal

end Solfege
