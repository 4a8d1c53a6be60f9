import Solfege.Duration.Seconds
import Solfege.Pitch.Basic

/-! Music: events on a timeline. An event sounds one pitch name or a group of names together, from
a time in seconds and for a length. -/
namespace Solfege

/-- What an event sounds. A group keeps being one whatever its size. -/
inductive Sound
  | single (name : String)
  | group (names : List String)
deriving DecidableEq

namespace Sound

def names : Sound → List String
  | .single name => [name]
  | .group names => names

def isGroup : Sound → Bool
  | .single _ => false
  | .group _ => true

/-- Groups sound softer than single notes. -/
def velocity : Sound → Binary64
  | .single _ => 1
  | .group _ => 0.65

def transpose (semitones : Int) : Sound → Except Fault Sound
  | .single name => return .single (← Pitch.transposeName semitones name)
  | .group names => return .group (← names.mapM (Pitch.transposeName semitones))

end Sound

structure Event where
  time : Number
  sound : Sound
  length : NoteLength
deriving DecidableEq

abbrev Music := List Event

namespace Music

def transpose (semitones : Int) (music : Music) : Except Fault Music :=
  music.mapM fun event => return { event with sound := ← event.sound.transpose semitones }

end Music
end Solfege
