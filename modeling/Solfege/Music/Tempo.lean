import Solfege.Music.Basic

/-! Music at another tempo. Times and lengths in seconds are laid out for the reference tempo of
120 and stretched or squeezed; duration codes are read at the tempo itself. -/
namespace Solfege

namespace Duration

/-- What times laid out at the reference tempo are multiplied by. -/
def tempoScale (tempo : Number) : Except Fault Binary64 := do
  checkTempo tempo
  return 120 / (← tempo.toReal)

end Duration

namespace Event

def seconds (event : Event) (tempo : Number) : Except Fault Binary64 :=
  match event.length with
  | .code text => Duration.codeSeconds text tempo
  | .seconds n => return (← n.toReal) * (← Duration.tempoScale tempo)

/-- When an event comes, in seconds from the start. -/
def delay (event : Event) (scale : Binary64) : Except Fault Binary64 :=
  return (← event.time.toReal) * scale

/-- How long after its time an event of a given length starts to sound: a group settles for half
its length first. -/
def onset (event : Event) (seconds : Binary64) : Binary64 :=
  if event.sound.isGroup then seconds / 2 else 0

def endTime (event : Event) (scale : Binary64) (tempo : Number) : Except Fault Binary64 := do
  let start ← event.delay scale
  return start + (← event.seconds tempo)

end Event

/-- The first of the greatest values; what is not a number never replaces another. -/
def Binary64.greatest : List Binary64 → Option Binary64
  | [] => none
  | x :: rest => some (rest.foldl (fun best y => if best < y then y else best) x)

/-- The length of music in seconds: where its last event ends, zero when there is none. -/
def Music.seconds (music : Music) (tempo : Number) : Except Fault Binary64 := do
  let scale ← Duration.tempoScale tempo
  return (Binary64.greatest (← music.mapM fun event => event.endTime scale tempo)).getD 0

end Solfege
